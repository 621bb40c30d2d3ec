import OnChainEventIndexer.Indexer.Recovery

/-!
# How long the batch loop runs

`process_unprocessed_signatures` with nobody else at the address and no failing statement, from any
database and against any RPC. Each round claims up to 100 rows; a round without errors marks all of
them, a round with errors is the last one.

Rows in flight at the start (claimed by a run that broke off) become claimable once five minutes
have passed, one after the other perhaps, and each may cost a round of its own. So the rounds are
not bounded by the unprocessed rows in hundreds alone: `tooManyRounds`.

* `batchesLeft`: full batches of the claimable rows, and the rows in flight. Time does not raise it
  (`batchesLeft_later`), a round lowers it (`batchesLeft_claim`).
* `batchInv_next`: what one call keeps.
* **`batchLoop_ends`**: the loop ends, and leaves nothing behind but rows that were in flight.
-/

namespace OnChainEventIndexer

open Keyed Lts

/-! ## Claimable and in flight -/

/-- An unprocessed row of the address, none of `sigs`. -/
def SignatureRow.openBut (address : String) (sigs : List String) (r : SignatureRow) : Bool :=
  r.unprocessed address && decide (r.signature ∉ sigs)

theorem SignatureRow.openBut_eq_true {address : String} {sigs : List String} {r : SignatureRow} :
    r.openBut address sigs = true ↔
      r.ownerAddress = address ∧ r.isProcessed = false ∧ r.signature ∉ sigs := by
  unfold SignatureRow.openBut
  rw [Bool.and_eq_true, unprocessed_eq_true, decide_eq_true_eq, and_assoc]

theorem SignatureRow.claimable_later {address : String} {now now' : Int} {r : SignatureRow}
    (h : r.claimable address now = true) (hle : now ≤ now') : r.claimable address now' = true := by
  obtain ⟨ha, hp, hstarted⟩ := claimable_eq_true.mp h
  exact claimable_eq_true.mpr ⟨ha, hp, hstarted.imp_right fun hs started hm => by
    have := hs started hm
    omega⟩

/-- A list counted in two parts. -/
theorem countP_split {α : Type} (l : List α) (p q : α → Bool) :
    l.countP p = l.countP (fun x => p x && q x) + l.countP (fun x => p x && !q x) := by
  rw [List.countP_eq_countP_filter_add l p q, List.countP_filter, List.countP_filter]

namespace Db

/-- The rows other than `sigs` that a claim may take. -/
def claimableBut (db : Db) (address : String) (now : Int) (sigs : List String) : Nat :=
  db.signatures.rows.countP fun r => r.openBut address sigs && r.claimable address now

/-- ...and those that are in flight. -/
def inFlightBut (db : Db) (address : String) (now : Int) (sigs : List String) : Nat :=
  db.signatures.rows.countP fun r => r.openBut address sigs && !r.claimable address now

/-- The rows of the address that are in flight: unprocessed, and claimed at most five minutes ago. -/
def inFlightCount (db : Db) (address : String) (now : Int) : Nat :=
  db.signatures.rows.countP fun r => r.unprocessed address && !r.claimable address now

/-- The batches that the rows other than `sigs` can still make. -/
def batchesLeft (db : Db) (address : String) (now : Int) (sigs : List String) : Nat :=
  (db.claimableBut address now sigs + 99) / 100 + db.inFlightBut address now sigs

variable {db db' : Db} {address : String} {now now' : Int} {sigs : List String}

theorem openBut_nil (r : SignatureRow) : r.openBut address [] = r.unprocessed address := by
  simp [SignatureRow.openBut]

theorem inFlightBut_nil (db : Db) (address : String) (now : Int) :
    db.inFlightBut address now [] = db.inFlightCount address now := by
  unfold inFlightBut inFlightCount
  simp only [openBut_nil]

theorem claimableBut_add (db : Db) (address : String) (now : Int) (sigs : List String) :
    db.claimableBut address now sigs + db.inFlightBut address now sigs =
      db.signatures.rows.countP (·.openBut address sigs) :=
  (countP_split db.signatures.rows (·.openBut address sigs) (·.claimable address now)).symm

theorem claimableBut_nil (db : Db) (address : String) (now : Int) :
    db.claimableBut address now [] = db.unprocessedCount address - db.inFlightCount address now := by
  have hadd := claimableBut_add db address now []
  simp only [openBut_nil] at hadd
  rw [inFlightBut_nil] at hadd
  unfold unprocessedCount
  omega

/-- A claim finds the claimable rows. -/
theorem length_claimableSignatures (db : Db) (address : String) (now : Int) :
    (db.claimableSignatures address now).length = db.claimableBut address now [] := by
  unfold claimableSignatures claimableBut
  rw [List.length_map, ← List.countP_eq_length_filter]
  refine List.countP_congr fun r _ => ?_
  rw [openBut_nil, Bool.and_eq_true, SignatureRow.unprocessed_eq_true]
  exact ⟨fun h => ⟨⟨(SignatureRow.claimable_eq_true.mp h).1,
    (SignatureRow.claimable_eq_true.mp h).2.1⟩, h⟩, fun h => h.2⟩

/-- **Time passes**: a row in flight may become claimable. -/
theorem batchesLeft_later (hle : now ≤ now') :
    db.batchesLeft address now' sigs ≤ db.batchesLeft address now sigs := by
  have hmore : db.claimableBut address now sigs ≤ db.claimableBut address now' sigs := by
    refine List.countP_mono_left fun r _ hr => ?_
    rw [Bool.and_eq_true] at hr ⊢
    exact ⟨hr.1, SignatureRow.claimable_later hr.2 hle⟩
  have hnow := claimableBut_add db address now sigs
  have hnow' := claimableBut_add db address now' sigs
  unfold batchesLeft
  omega

theorem batchesLeft_same (h : Db.SameRows address db db') :
    db'.batchesLeft address now sigs = db.batchesLeft address now sigs := by
  have hsame : ∀ q : SignatureRow → Bool,
      db'.signatures.rows.countP (fun r => r.openBut address sigs && q r) =
        db.signatures.rows.countP fun r => r.openBut address sigs && q r := fun q =>
    Table.countP_congr fun r hr => (h.sigs r (SignatureRow.openBut_eq_true.mp
      (Bool.and_eq_true _ _ ▸ hr).1).1).symm
  unfold batchesLeft claimableBut inFlightBut
  rw [hsame, hsame]

/-- What is claimed is no longer counted. -/
theorem count_claim (chosen : List String) (q : SignatureRow → Bool) :
    (db.getUnprocessedSignatures address now chosen).2.signatures.rows.countP
        (fun r => r.openBut address chosen && q r) ≤
      db.signatures.rows.countP fun r => r.openBut address chosen && q r := by
  refine Table.countP_update_le (SignatureRow.claim_key now) fun r hr => ?_
  by_cases hown : ownedIn address chosen r = true
  · rw [if_pos hown, Bool.and_eq_true, SignatureRow.openBut_eq_true] at hr
    exact absurd (ownedIn_eq_true.mp hown).2 hr.1.2.2
  · rwa [if_neg hown] at hr

theorem openBut_mono (r : SignatureRow) (h : r.openBut address sigs = true) :
    r.openBut address [] = true := by
  obtain ⟨ha, hp, -⟩ := SignatureRow.openBut_eq_true.mp h
  exact SignatureRow.openBut_eq_true.mpr ⟨ha, hp, List.not_mem_nil⟩

/-- The rows of a claim were claimable. -/
theorem claimableBut_chosen {chosen : List String} (h : db.IsClaim address 100 now chosen) :
    db.claimableBut address now chosen + chosen.length ≤ db.claimableBut address now [] := by
  obtain ⟨hnd, hmem, -⟩ := h
  have hsplit := countP_split db.signatures.rows
    (fun r => r.openBut address [] && r.claimable address now) fun r => decide (r.signature ∈ chosen)
  have hin : chosen.length ≤ db.signatures.rows.countP fun r =>
      (r.openBut address [] && r.claimable address now) && decide (r.signature ∈ chosen) := by
    rw [List.countP_eq_length_filter, ← List.length_map (f := SignatureRow.signature)]
    refine (List.subperm_of_subset hnd fun s hs => ?_).length_le
    obtain ⟨r, hr, hc, rfl⟩ := mem_claimableSignatures.mp (hmem s hs)
    obtain ⟨ha, hp, -⟩ := SignatureRow.claimable_eq_true.mp hc
    refine List.mem_map_of_mem (List.mem_filter.mpr ⟨hr, ?_⟩)
    rw [Bool.and_eq_true, Bool.and_eq_true, SignatureRow.openBut_eq_true, decide_eq_true_eq]
    exact ⟨⟨⟨ha, hp, List.not_mem_nil⟩, hc⟩, hs⟩
  have hout : db.claimableBut address now chosen ≤ db.signatures.rows.countP fun r =>
      (r.openBut address [] && r.claimable address now) && !decide (r.signature ∈ chosen) := by
    refine List.countP_mono_left fun r _ hr => ?_
    rw [Bool.and_eq_true] at hr
    obtain ⟨-, -, hno⟩ := SignatureRow.openBut_eq_true.mp hr.1
    rw [Bool.and_eq_true, Bool.and_eq_true, Bool.not_eq_true', decide_eq_false_iff_not]
    exact ⟨⟨openBut_mono r hr.1, hr.2⟩, hno⟩
  unfold claimableBut at hout ⊢
  omega

/-- **A round** takes a full batch, or all that is claimable. -/
theorem batchesLeft_claim {chosen : List String} (h : db.IsClaim address 100 now chosen)
    (hne : chosen ≠ []) :
    (db.getUnprocessedSignatures address now chosen).2.batchesLeft address now chosen + 1 ≤
      db.batchesLeft address now [] := by
  have hpos := List.length_pos_iff.mpr hne
  have hlen := h.2.2
  have hclaimable := claimableBut_chosen h
  rw [length_claimableSignatures] at hlen
  have ha : (db.getUnprocessedSignatures address now chosen).2.claimableBut address now chosen ≤
      db.claimableBut address now chosen := count_claim chosen _
  have hi : (db.getUnprocessedSignatures address now chosen).2.inFlightBut address now chosen ≤
      db.inFlightBut address now chosen := count_claim chosen _
  have hi' : db.inFlightBut address now chosen ≤ db.inFlightBut address now [] := by
    refine List.countP_mono_left fun r _ hr => ?_
    rw [Bool.and_eq_true] at hr ⊢
    exact ⟨openBut_mono r hr.1, hr.2⟩
  unfold batchesLeft
  omega

/-- Marking what was claimed leaves it out of the count for good. -/
theorem batchesLeft_mark {marked : List String} (h : ∀ s, s ∈ marked ↔ s ∈ sigs) :
    (db.markSignaturesProcessed address marked).2.batchesLeft address now [] ≤
      db.batchesLeft address now sigs := by
  have hcount : ∀ q : SignatureRow → Bool,
      (db.markSignaturesProcessed address marked).2.signatures.rows.countP
          (fun r => r.openBut address [] && q r) ≤
        db.signatures.rows.countP fun r => r.openBut address sigs && q r := by
    intro q
    unfold markSignaturesProcessed
    split
    · rename_i hempty
      refine List.countP_mono_left fun r _ hr => ?_
      rw [Bool.and_eq_true] at hr ⊢
      obtain ⟨ha, hp, -⟩ := SignatureRow.openBut_eq_true.mp hr.1
      refine ⟨SignatureRow.openBut_eq_true.mpr ⟨ha, hp, fun hs => ?_⟩, hr.2⟩
      rw [← h, List.isEmpty_iff.mp hempty] at hs
      exact absurd hs List.not_mem_nil
    · refine Table.countP_update_le SignatureRow.mark_key fun r hr => ?_
      by_cases hw : (ownedIn address marked r && !r.isProcessed) = true
      · rw [if_pos hw, Bool.and_eq_true] at hr
        exact absurd (SignatureRow.openBut_eq_true.mp hr.1).2.1 (by simp [SignatureRow.mark])
      · rw [if_neg hw, Bool.and_eq_true] at hr
        obtain ⟨ha, hp, -⟩ := SignatureRow.openBut_eq_true.mp hr.1
        rw [Bool.and_eq_true]
        refine ⟨SignatureRow.openBut_eq_true.mpr ⟨ha, hp, fun hs => hw ?_⟩, hr.2⟩
        rw [Bool.and_eq_true, ownedIn_eq_true, hp]
        exact ⟨⟨ha, (h _).mpr hs⟩, rfl⟩
  have ha := hcount fun r => r.claimable address now
  have hi := hcount fun r => !r.claimable address now
  unfold batchesLeft claimableBut inFlightBut
  omega

end Db

/-! ## The rounds of a run -/

/-- The claim made in a step, and its time. -/
def claim? : Local × Event → Option (List String × Int)
  | (⟨_, _, .claimBatch⟩, (now, .done chosen)) => some (chosen, now)
  | _ => none

/-- The rounds of the loop, by their claims. -/
def claims (tr : Trace) := tr.filterMap claim?

/-- The signatures claimed. -/
def claimed (tr : Trace) : List String := (claims tr).flatMap Prod.fst

theorem claims_snoc (tr : Trace) (x : Local × Event) :
    claims (tr ++ [x]) = claims tr ++ (claim? x).toList := filterMap_snoc claim? tr x

theorem claims_snoc_of_none {tr : Trace} {x : Local × Event} (h : claim? x = none) :
    claims (tr ++ [x]) = claims tr := by
  rw [claims_snoc, h, Option.toList_none, List.append_nil]

theorem length_claims_snoc {tr : Trace} {x : Local × Event} {c : List String × Int}
    (h : claim? x = some c) : (claims (tr ++ [x])).length = (claims tr).length + 1 := by
  rw [claims_snoc, h, List.length_append, Option.toList_some, List.length_singleton]

theorem claimed_snoc_of_none {tr : Trace} {x : Local × Event} (h : claim? x = none) :
    claimed (tr ++ [x]) = claimed tr := by
  unfold claimed
  rw [claims_snoc_of_none h]

theorem mem_claimed_snoc {tr : Trace} {x : Local × Event} {chosen : List String} {now : Int}
    (h : claim? x = some (chosen, now)) {s : String} :
    s ∈ claimed (tr ++ [x]) ↔ s ∈ claimed tr ∨ s ∈ chosen := by
  unfold claimed
  rw [claims_snoc, h, List.flatMap_append, List.mem_append, Option.toList_some,
    List.flatMap_singleton]

/-- An unprocessed row of the address was claimed at most five minutes before `t`. -/
def Db.OnlyInFlight (db : Db) (address : String) (t : Int) : Prop :=
  ∀ r ∈ db.signatures, r.ownerAddress = address → r.isProcessed = false →
    r.isProcessing = true ∧ ∃ started ∈ r.processingStartedAt, t - fiveMinutes ≤ started

/-- A call of the batch loop. -/
def Pc.batching : Pc → Bool
  | .claimBatch => true
  | .getTransaction _ => true
  | .writeTransactionInfo _ => true
  | .writeTokenTransfers _ => true
  | .markProcessed _ => true
  | _ => false

/-! ## The invariant -/

section Invariant

variable {bound : Nat}

/-- What cannot be claimed is in flight. -/
theorem onlyInFlight_of_nil {address : String} {db : Db} {now : Int}
    (h : db.IsClaim address 100 now []) : db.OnlyInFlight address now := by
  intro r hr ha hp
  have hnot : ¬r.claimable address now = true := by
    intro hc
    have hmem := Db.mem_claimableSignatures.mpr ⟨r, hr, hc, rfl⟩
    rw [h.nil (by decide)] at hmem
    exact absurd hmem List.not_mem_nil
  rw [SignatureRow.claimable_eq_true] at hnot
  simp only [ha, hp, true_and, not_or, not_forall, Bool.not_eq_false] at hnot
  obtain ⟨hprocessing, started, hstarted, hlt⟩ := hnot
  exact ⟨hprocessing, started, hstarted, by omega⟩

theorem signatures_claim_nil (db : Db) (address : String) (now : Int) (r : SignatureRow) :
    r ∈ (db.getUnprocessedSignatures address now []).2.signatures ↔ r ∈ db.signatures := by
  rw [Db.mem_getUnprocessedSignatures]
  simp [Db.ownedIn]

theorem dbFailures_init {tr : Trace} {x : Local × Event} (h : dbFailures (tr ++ [x]) = []) :
    dbFailures tr = [] ∧ dbFailure? x = none := by
  rw [dbFailures_snoc] at h
  obtain ⟨htr, hx⟩ := List.append_eq_nil_iff.mp h
  exact ⟨htr, Option.toList_eq_nil_iff.mp hx⟩

/-- A round is under way for `sigs`. -/
structure Round (address : String) (bound : Nat) (tr : Trace) (db : Db) (now : Int)
    (sigs : List String) : Prop where
  left : (claims tr).length + db.batchesLeft address now sigs ≤ bound
  done : ∀ s ∈ claimed tr, s ∈ sigs ∨ db.Processed address s
  unprocessed : ∀ s ∈ sigs, db.Unprocessed address s

theorem Round.later {address : String} {tr : Trace} {db db' : Db} {now now' : Int}
    {sigs : List String} (h : Round address bound tr db now sigs) (hs : Db.SameRows address db db')
    (hle : now ≤ now') : Round address bound tr db' now' sigs := by
  refine ⟨?_, fun s hm => (h.done s hm).imp_right (·.of_same hs), fun s hm =>
    (h.unprocessed s hm).of_same hs⟩
  have hleft := h.left
  have hlater : db'.batchesLeft address now' sigs ≤ db.batchesLeft address now sigs :=
    (Db.batchesLeft_later hle).trans (Db.batchesLeft_same hs).le
  omega

/-- A round goes on while its rows are left alone. -/
theorem Round.snoc {address : String} {tr : Trace} {db db' : Db} {now : Int} {sigs : List String}
    {x : Local × Event} (h : Round address bound tr db now sigs)
    (hsig : db'.signatures = db.signatures) (hx : claim? x = none) :
    Round address bound (tr ++ [x]) db' now sigs := by
  have hleft := h.left
  have hdone := h.done
  rw [← claims_snoc_of_none hx] at hleft
  rw [← claimed_snoc_of_none hx] at hdone
  unfold Db.batchesLeft Db.claimableBut Db.inFlightBut at hleft
  unfold Db.Processed at hdone
  refine ⟨?_, fun s hm => ?_, fun s hm => ?_⟩
  · unfold Db.batchesLeft Db.claimableBut Db.inFlightBut
    rw [hsig]
    exact hleft
  · unfold Db.Processed
    rw [hsig]
    exact hdone s hm
  · unfold Db.Unprocessed
    rw [hsig]
    exact h.unprocessed s hm

theorem Round.claims_le {address : String} {tr : Trace} {db : Db} {now : Int} {sigs : List String}
    {x : Local × Event} (h : Round address bound tr db now sigs) (hx : claim? x = none) :
    (claims (tr ++ [x])).length ≤ bound + 1 := by
  have hleft := h.left
  rw [claims_snoc_of_none hx]
  omega

/-- After the end nothing more is claimed. -/
theorem claims_le {tr : Trace} {x : Local × Event} (h : (claims tr).length ≤ bound)
    (hx : claim? x = none) : (claims (tr ++ [x])).length ≤ bound := by
  rwa [claims_snoc_of_none hx]

/-- What holds at each call. -/
def BatchInv (address : String) (bound : Nat) (tr : Trace) (db : Db) (now : Int) : Pc → Prop
  | .fetchPage _ _ | .writeSignatures _ _ => False
  | .claimBatch => Round address bound tr db now []
  | .getTransaction signatures => Round address bound tr db now signatures
  | .writeTransactionInfo batch | .writeTokenTransfers batch | .markProcessed batch =>
    ∃ sigs, Round address bound tr db now sigs ∧
      (batch.errors = [] → ∀ s, s ∈ batch.processedSignatures ↔ s ∈ sigs)
  | .updateReady => (claims tr).length ≤ bound + 1 ∧
      (∀ s ∈ claimed tr, db.Processed address s) ∧
      ∃ last, (claims tr).getLast? = some ([], last) ∧ db.OnlyInFlight address last
  | .updateError | .returned | .panicked => (claims tr).length ≤ bound + 1

theorem BatchInv.later {address : String} {tr : Trace} {db db' : Db} {now now' : Int} {pc : Pc}
    (h : BatchInv address bound tr db now pc) (hs : Db.SameRows address db db') (hle : now ≤ now') :
    BatchInv address bound tr db' now' pc := by
  cases pc with
  | claimBatch => exact Round.later h hs hle
  | getTransaction signatures => exact Round.later h hs hle
  | writeTransactionInfo batch =>
    obtain ⟨sigs, hr, hb⟩ := h
    exact ⟨sigs, hr.later hs hle, hb⟩
  | writeTokenTransfers batch =>
    obtain ⟨sigs, hr, hb⟩ := h
    exact ⟨sigs, hr.later hs hle, hb⟩
  | markProcessed batch =>
    obtain ⟨sigs, hr, hb⟩ := h
    exact ⟨sigs, hr.later hs hle, hb⟩
  | updateReady =>
    obtain ⟨hlen, hdone, last, hlast, hflight⟩ := h
    exact ⟨hlen, fun s hm => (hdone s hm).of_same hs, last, hlast, fun r hr ha =>
      hflight r ((hs.sigs r ha).mpr hr) ha⟩
  | _ => exact h

/-- At each call, at the end, and after it. -/
theorem BatchInv.rounds {address : String} {tr : Trace} {db : Db} {now : Int} {pc : Pc}
    (h : BatchInv address bound tr db now pc) : (claims tr).length ≤ bound + 1 := by
  have of_round : ∀ {sigs}, Round address bound tr db now sigs → (claims tr).length ≤ bound + 1 := by
    intro sigs hr
    have := hr.left
    omega
  cases pc with
  | fetchPage cur sum => exact h.elim
  | writeSignatures page sum => exact h.elim
  | claimBatch => exact of_round h
  | getTransaction signatures => exact of_round h
  | writeTransactionInfo batch =>
    obtain ⟨sigs, hr, -⟩ := h
    exact of_round hr
  | writeTokenTransfers batch =>
    obtain ⟨sigs, hr, -⟩ := h
    exact of_round hr
  | markProcessed batch =>
    obtain ⟨sigs, hr, -⟩ := h
    exact of_round hr
  | updateReady => exact h.1
  | _ => exact h

end Invariant

/-! ## One step -/

section Network

variable [External]

/-- A step with nobody else at the address. -/
abbrev AloneStep (api : HeliusApi) (job : ClaimedJob) : Local → Event → Local → Prop :=
  LocalStep api job (Db.SameRows job.address)

/-- **The batch loop** from the database `db` at the time `now`, in runs without a failing statement:
how many rounds there are, how many calls, that no call is the last, and what holds when the loop
ends well. -/
structure BatchLoop (api : HeliusApi) (job : ClaimedJob) (db : Db) (now : Int) : Prop where
  rounds : ∀ tr t, Run (AloneStep api job) ⟨db, now, .claimBatch⟩ tr t → dbFailures tr = [] →
    (claims tr).length ≤
      (db.unprocessedCount job.address - db.inFlightCount job.address now + 99) / 100
        + db.inFlightCount job.address now + 1
  calls : ∀ tr t, Run (AloneStep api job) ⟨db, now, .claimBatch⟩ tr t → dbFailures tr = [] →
    tr.length ≤ 5 * (claims tr).length + 1
  goesOn : ∀ tr t, Run (AloneStep api job) ⟨db, now, .claimBatch⟩ tr t → dbFailures tr = [] →
    t.pc.batching = true → ∀ now', t.now ≤ now' →
      (∀ signatures, t.pc = .getTransaction signatures → ∀ reply,
        ∃ t', AloneStep api job t (now', .transactions reply) t') ∧
      ((∀ signatures, t.pc ≠ .getTransaction signatures) →
        ∃ chosen t', AloneStep api job t (now', .done chosen) t')
  processed : ∀ tr t, Run (AloneStep api job) ⟨db, now, .claimBatch⟩ tr t → dbFailures tr = [] →
    t.pc = .updateReady → ∀ s ∈ claimed tr, t.db.Processed job.address s
  inFlight : ∀ tr t, Run (AloneStep api job) ⟨db, now, .claimBatch⟩ tr t → dbFailures tr = [] →
    t.pc = .updateReady → ∃ last, (claims tr).getLast? = some ([], last) ∧
      t.db.OnlyInFlight job.address last

variable {api : HeliusApi} {job : ClaimedJob} {bound : Nat}

/-- **The step lemma.** -/
theorem batchInv_next {tr : Trace} {db0 db db' : Db} {n0 now : Int} {pc pc' : Pc} {a : Answer}
    (h : BatchInv job.address bound tr db now pc) (hok : dbFailure? (⟨db0, n0, pc⟩, (now, a)) = none)
    (hn : Next api job now db pc a db' pc') :
    BatchInv job.address bound (tr ++ [(⟨db0, n0, pc⟩, (now, a))]) db' now pc' := by
  cases hn with
  | pageFetched hpage => exact h.elim
  | pageFailed herr => exact h.elim
  | signaturesWritten => exact h.elim
  | nothingClaimed hc =>
    have hclaim : claim? (⟨db0, n0, .claimBatch⟩, (now, .done [])) = some ([], now) := rfl
    have hleft := h.left
    refine ⟨?_, fun s hs => ?_, now, ?_, fun r hr => ?_⟩
    · rw [length_claims_snoc hclaim]
      omega
    · obtain ⟨r, hr, hk⟩ := (h.done s (((mem_claimed_snoc hclaim).mp hs).resolve_right
        List.not_mem_nil)).resolve_left List.not_mem_nil
      exact ⟨r, (signatures_claim_nil db _ _ r).mpr hr, hk⟩
    · rw [claims_snoc, hclaim, Option.toList_some, List.getLast?_concat]
    · exact onlyInFlight_of_nil hc r ((signatures_claim_nil db _ _ r).mp hr)
  | @batchClaimed chosen hc hne =>
    have hclaim : claim? (⟨db0, n0, .claimBatch⟩, (now, .done chosen)) = some (chosen, now) := rfl
    have hleft := h.left
    have hround := Db.batchesLeft_claim hc hne
    refine ⟨?_, fun s hs => ?_, fun s hs => Db.unprocessed_claim hc hs⟩
    · rw [length_claims_snoc hclaim]
      omega
    · rcases (mem_claimed_snoc hclaim).mp hs with hs | hs
      · exact Or.inr (((h.done s hs).resolve_left List.not_mem_nil).mono
          (Db.le_getUnprocessedSignatures db _ _ _))
      · exact Or.inl hs
  | @batchFetched signatures reply batch hb =>
    exact ⟨signatures, Round.snoc h rfl rfl, fun he _ => mem_processed_iff hb he⟩
  | batchPanicked hb => exact Round.claims_le h rfl
  | infoWritten =>
    obtain ⟨sigs, hr, hb⟩ := h
    exact ⟨sigs, hr.snoc (by simp) rfl, hb⟩
  | transfersWritten =>
    obtain ⟨sigs, hr, hb⟩ := h
    exact ⟨sigs, hr.snoc (by simp) rfl, hb⟩
  | @batchMarked batch chosen =>
    obtain ⟨sigs, hr, hb⟩ := h
    unfold Pc.afterBatch
    cases herrors : batch.errors with
    | nil =>
      have hmark : (db.markSignaturesProcessed job.address batch.processedSignatures).2.batchesLeft
          job.address now [] ≤ db.batchesLeft job.address now sigs := Db.batchesLeft_mark (hb herrors)
      have hleft := hr.left
      refine ⟨?_, fun s hs => Or.inr ?_, fun s hs => absurd hs List.not_mem_nil⟩
      · rw [claims_snoc_of_none rfl]
        omega
      · rw [claimed_snoc_of_none rfl] at hs
        rcases hr.done s hs with hs | hs
        · exact (hr.unprocessed s hs).mark ((hb herrors s).mpr hs)
        · exact hs.mono (Db.le_markSignaturesProcessed db _ _)
    | cons e es => exact Round.claims_le hr rfl
  | readyUpdated hone => exact claims_le h.1 rfl
  | readyBlocked hzero => exact claims_le h.1 rfl
  | errorUpdated => exact claims_le h rfl
  | dbFailed hi => exact absurd hok (by simp [dbFailure?])

/-! ## Every run -/

theorem batchInv_run {db : Db} {now : Int} {tr : Trace} {t : Local}
    (hrun : Run (AloneStep api job) ⟨db, now, .claimBatch⟩ tr t) (hok : dbFailures tr = []) :
    BatchInv job.address (db.batchesLeft job.address now []) tr t.db t.now t.pc := by
  induction hrun with
  | refl =>
    exact ⟨Nat.le_of_eq (Nat.zero_add _), fun s hs => absurd hs List.not_mem_nil, fun s hs =>
      absurd hs List.not_mem_nil⟩
  | @tail tr s u e _ hstep ih =>
    obtain ⟨htr, hx⟩ := dbFailures_init hok
    obtain ⟨db', hsame, hle, hnow, hstep⟩ := hstep
    obtain ⟨db0, n0, pc⟩ := s
    obtain ⟨now', a⟩ := e
    rw [hnow]
    exact batchInv_next ((ih htr).later hsame hle) hx (step_next hstep)

/-- The calls until the next claim, or until the end. -/
def Pc.untilClaim : Pc → Nat
  | .claimBatch => 1
  | .getTransaction _ => 5
  | .writeTransactionInfo _ => 4
  | .writeTokenTransfers _ => 3
  | .markProcessed _ => 2
  | .updateReady => 2
  | .updateError => 1
  | _ => 0

/-- A round has five calls. -/
theorem calls_next {tr : Trace} {db0 db db' : Db} {n0 now : Int} {pc pc' : Pc} {a : Answer}
    (hin : BatchInv job.address bound tr db now pc)
    (h : tr.length + pc.untilClaim ≤ 5 * (claims tr).length + 1)
    (hok : dbFailure? (⟨db0, n0, pc⟩, (now, a)) = none) (hn : Next api job now db pc a db' pc') :
    tr.length + 1 + pc'.untilClaim ≤
      5 * (claims (tr ++ [(⟨db0, n0, pc⟩, (now, a))])).length + 1 := by
  have other : ∀ {m : Nat}, claim? (⟨db0, n0, pc⟩, (now, a)) = none → m + 1 ≤ pc.untilClaim →
      tr.length + 1 + m ≤ 5 * (claims (tr ++ [(⟨db0, n0, pc⟩, (now, a))])).length + 1 := by
    intro m hx hm
    rw [claims_snoc_of_none hx]
    omega
  have claim : ∀ {m : Nat} {c}, claim? (⟨db0, n0, pc⟩, (now, a)) = some c → m ≤ pc.untilClaim + 4 →
      tr.length + 1 + m ≤ 5 * (claims (tr ++ [(⟨db0, n0, pc⟩, (now, a))])).length + 1 := by
    intro m c hx hm
    rw [length_claims_snoc hx]
    omega
  cases hn with
  | pageFetched hpage => exact hin.elim
  | pageFailed herr => exact hin.elim
  | signaturesWritten => exact hin.elim
  | nothingClaimed hc => exact claim rfl (by decide)
  | batchClaimed hc hne => exact claim rfl (Nat.le_refl 5)
  | batchMarked =>
    refine other rfl ?_
    unfold Pc.afterBatch
    split <;> exact Nat.le_refl 2
  | dbFailed hi => exact absurd hok (by simp [dbFailure?])
  | _ => exact other rfl (by simp [Pc.untilClaim])

theorem calls_run {db : Db} {now : Int} {tr : Trace} {t : Local}
    (hrun : Run (AloneStep api job) ⟨db, now, .claimBatch⟩ tr t) (hok : dbFailures tr = []) :
    tr.length + t.pc.untilClaim ≤ 5 * (claims tr).length + 1 := by
  induction hrun with
  | refl => exact Nat.le_refl 1
  | @tail tr s u e hr hstep ih =>
    obtain ⟨htr, hx⟩ := dbFailures_init hok
    have hin := batchInv_run hr htr
    obtain ⟨db', hsame, hle, hnow, hstep⟩ := hstep
    obtain ⟨db0, n0, pc⟩ := s
    obtain ⟨now', a⟩ := e
    rw [List.length_append, List.length_singleton]
    exact calls_next (hin.later hsame hle) (ih htr) hx (step_next hstep)

/-- **No call of the loop is the last.** -/
theorem batching_goesOn {t : Local} (hb : t.pc.batching = true) {now : Int} (hnow : t.now ≤ now) :
    (∀ signatures, t.pc = .getTransaction signatures → ∀ reply,
      ∃ t', AloneStep api job t (now, .transactions reply) t') ∧
    ((∀ signatures, t.pc ≠ .getTransaction signatures) →
      ∃ chosen t', AloneStep api job t (now, .done chosen) t') := by
  obtain ⟨db, n, pc⟩ := t
  have hsame : Db.SameRows job.address db db := (Db.SameAddress.refl _ db).toSameRows
  have go : ∀ {a : Answer} {p : Db × Pc}, step api job now db pc a = some p →
      ∃ t', AloneStep api job ⟨db, n, pc⟩ (now, a) t' := by
    intro a p h
    exact ⟨⟨p.1, now, p.2⟩, db, hsame, hnow, rfl, h⟩
  constructor
  · rintro signatures rfl reply
    cases hget : getTransaction api reply signatures with
    | some batch => exact go (by simp only [step, hget]; rfl)
    | none => exact go (by simp only [step, hget]; rfl)
  · intro hnot
    cases pc with
    | claimBatch =>
      obtain ⟨chosen, hchosen⟩ := Db.exists_isClaim db job.address 100 now
      exact ⟨chosen, go (by simp only [step, hchosen, if_true]; rfl)⟩
    | getTransaction signatures => exact absurd rfl (hnot signatures)
    | writeTransactionInfo batch => exact ⟨[], go rfl⟩
    | writeTokenTransfers batch => exact ⟨[], go rfl⟩
    | markProcessed batch => exact ⟨[], go rfl⟩
    | _ => exact absurd hb (by simp [Pc.batching])

/-- **The batch loop ends and leaves no claim of its own behind.** Of the `n` unprocessed rows of
the address `m` are in flight at the start: there are at most `⌈(n - m) / 100⌉ + m + 1` rounds; and
where the loop ends well, all that was claimed is processed and every row left is in flight. -/
theorem batchLoop_ends (api : HeliusApi) (job : ClaimedJob) (db : Db) (now : Int) :
    BatchLoop api job db now := by
  refine ⟨fun tr t hrun hok => ?_, fun tr t hrun hok => ?_,
    fun tr t _ _ hb now' hnow => batching_goesOn hb hnow, fun tr t hrun hok hpc => ?_,
    fun tr t hrun hok hpc => ?_⟩
  · rw [← Db.claimableBut_nil, ← Db.inFlightBut_nil]
    exact (batchInv_run hrun hok).rounds
  · exact (Nat.le_add_right _ _).trans (calls_run hrun hok)
  · have hinv := batchInv_run hrun hok
    rw [hpc] at hinv
    exact hinv.2.1
  · have hinv := batchInv_run hrun hok
    rw [hpc] at hinv
    exact hinv.2.2

end Network

/-! ## A row that becomes claimable meanwhile -/

/-- Two unprocessed signatures of `"A"`; the second one was claimed at second 10000. -/
def staleDb : Db :=
  (((sampleDb 10100).writeSignatures ⟨[⟨some 9000, "s1"⟩, ⟨some 8000, "s2"⟩]⟩ "A").2
    |>.getUnprocessedSignatures "A" 10000000000 ["s2"]).2

/-- The first round ends at second 10400, and by then the second row is claimable. -/
def tooManyRounds : List Event :=
  let t : Int := 10100 * 1000000
  let u : Int := 10400 * 1000000
  [(t, .done ["s1"]), (t, .transactions fun _ => serveTransaction "s1"), (t, .done []), (t, .done []),
    (u, .done []), (u, .done ["s2"]), (u, .transactions fun _ => serveTransaction "s2"),
    (u, .done []), (u, .done []), (u, .done []), (u, .done [])]

/-- **Three rounds for two rows.** -/
theorem rounds_exceed_hundreds : letI : External := smallNetwork [] ["s1", "s2"]
    ∃ tr t, Run (AloneStep sampleApi sampleJob) ⟨staleDb, 10100000000, .claimBatch⟩ tr t ∧
      dbFailures tr = [] ∧ staleDb.unprocessedCount "A" = 2 ∧
      ¬(claims tr).length ≤ (staleDb.unprocessedCount "A" + 99) / 100 + 1 := by
  let : External := smallNetwork [] ["s1", "s2"]
  obtain ⟨tr, t, hrun, -, htest⟩ := exists_run_of_exec (localStep sampleApi sampleJob)
    ⟨staleDb, 10100000000, .claimBatch⟩ tooManyRounds (fun tr _ => (dbFailures tr).isEmpty &&
      decide ((claims tr).length = 3)) (by decide +kernel)
  simp only [Bool.and_eq_true, decide_eq_true_eq] at htest
  have hcount : staleDb.unprocessedCount "A" = 2 := by decide +kernel
  refine ⟨tr, t, hrun.imp (localStep_of_eq fun db => (Db.SameAddress.refl "A" db).toSameRows),
    List.isEmpty_iff.mp htest.1, hcount, ?_⟩
  rw [htest.2, hcount]
  decide

end OnChainEventIndexer
