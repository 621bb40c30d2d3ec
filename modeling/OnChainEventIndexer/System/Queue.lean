import OnChainEventIndexer.Db.Queue
import OnChainEventIndexer.System.Ownership

/-!
# The order of the claims

In every run in which claims do not overlap and each job is created later than those before it, the
jobs are the queue of `Db/Queue.lean` (`queue_step`), whatever the workers do in between.

* **`claims_in_order`**: the jobs of an address are claimed in the order in which they were created,
  each once.
* **`served_in_turn`**: while no job of its address is being indexed, a pending job lets only older
  ones pass.
-/

namespace OnChainEventIndexer

open Keyed Lts

/-! ## What a run shows of the queue -/

namespace Sys

/-- Claims do not overlap, so that one whose answer is lost has taken the next job too; and every
job is created later than those before it. -/
def InTurn (s : Sys) : Act → Prop
  | .create _ _ _ => ∀ j ∈ s.db.processingData, j.createdAt < s.now
  | .createLost _ _ _ => ∀ j ∈ s.db.processingData, j.createdAt < s.now
  | .claimRaced _ _ => False
  | .claimLost _ jobId => ∃ j ∈ s.db.nextJob, j.id = jobId
  | _ => True

instance (s : Sys) (a : Act) : Decidable (InTurn s a) :=
  match a with
  | .create _ _ _ => inferInstanceAs (Decidable (∀ j ∈ s.db.processingData, j.createdAt < s.now))
  | .createLost _ _ _ =>
    inferInstanceAs (Decidable (∀ j ∈ s.db.processingData, j.createdAt < s.now))
  | .claimRaced _ _ => isFalse id
  | .claimLost _ jobId => inferInstanceAs (Decidable (∃ j ∈ s.db.nextJob, j.id = jobId))
  | .tick _ => isTrue trivial
  | .claim _ => isTrue trivial
  | .call _ _ => isTrue trivial
  | .callLost _ _ => isTrue trivial
  | .crash _ => isTrue trivial
  | .restart _ => isTrue trivial

/-- What the queue sees of a step. -/
def event : Sys × Act → Option (KeyQueue.Act Nat String)
  | (s, .create address _ _) => some (.arrive (s.db.nextId, address))
  | (s, .createLost address _ _) => some (.arrive (s.db.nextId, address))
  | (s, .claim w) =>
    match s.db.claimPendingJob w s.now with
    | .ok (some job, _) => some (.start (job.jobId, job.address))
    | _ => none
  | (s, .claimLost _ _) => s.db.nextJob.map fun j => .start (j.id, j.address)
  | _ => none

/-- The jobs created for the address, in this order. -/
def created (address : String) (tr : List (Sys × Act)) : List Nat :=
  KeyQueue.ofKey address (KeyQueue.arrivals (tr.filterMap event))

/-- The jobs of the address that were claimed, in this order. -/
def claimed (address : String) (tr : List (Sys × Act)) : List Nat :=
  KeyQueue.ofKey address (KeyQueue.starts (tr.filterMap event))

/-- The jobs of the address that are pending. -/
def pending (address : String) (s : Sys) : List Nat := KeyQueue.ofKey address s.db.queue.waiting

theorem ordered_init (now : Int) : (Sys.init now).db.Ordered := List.Pairwise.nil

end Sys

/-! ## Steps -/

section Network

variable [External]

/-- What a call of a job run does to the queue. -/
theorem Next.queue {api : HeliusApi} {job : ClaimedJob} {now : Int} {db db' : Db} {pc pc' : Pc}
    {a : Answer} (h : Next api job now db pc a db' pc') :
    db'.queue = db.queue ∨ ∃ k, KeyQueue.Step db.queue (.finish k) db'.queue := by
  cases h with
  | signaturesWritten =>
    exact Or.inl (Db.queue_of_processingData (Db.writeSignatures_processingData _ _ _))
  | infoWritten =>
    exact Or.inl (Db.queue_of_processingData (Db.writeTransactionInfo_processingData _ _ _))
  | transfersWritten =>
    exact Or.inl (Db.queue_of_processingData (Db.writeTokenTransfers_processingData _ _ _))
  | batchMarked =>
    exact Or.inl (Db.queue_of_processingData (Db.markSignaturesProcessed_processingData _ _ _))
  | readyUpdated h => exact Db.queue_updateStatus db job.jobId now (by simp) (by simp)
  | readyBlocked h => exact Db.queue_updateStatus db job.jobId now (by simp) (by simp)
  | errorUpdated => exact Db.queue_updateStatus db job.jobId now (by simp) (by simp)
  | _ => exact Or.inl rfl

theorem Next.ordered {api : HeliusApi} {job : ClaimedJob} {now : Int} {db db' : Db} {pc pc' : Pc}
    {a : Answer} (h : Next api job now db pc a db' pc') (ho : db.Ordered) : db'.Ordered := by
  have hsame : ∀ db' : Db, db'.processingData = db.processingData → db'.Ordered := fun db' he => by
    unfold Db.Ordered
    rw [he]
    exact ho
  cases h with
  | signaturesWritten => exact hsame _ (Db.writeSignatures_processingData _ _ _)
  | infoWritten => exact hsame _ (Db.writeTransactionInfo_processingData _ _ _)
  | transfersWritten => exact hsame _ (Db.writeTokenTransfers_processingData _ _ _)
  | batchMarked => exact hsame _ (Db.markSignaturesProcessed_processingData _ _ _)
  | readyUpdated h => exact Db.ordered_update (Db.statusSet_id _ now) ho rfl fun _ _ _ => rfl
  | readyBlocked h => exact Db.ordered_update (Db.statusSet_id _ now) ho rfl fun _ _ _ => rfl
  | errorUpdated => exact Db.ordered_update (Db.statusSet_id _ now) ho rfl fun _ _ _ => rfl
  | _ => exact ho

namespace Sys

variable {api : HeliusApi} {s s' : Sys} {a : Act}

/-- **The inversion of a claim.** -/
theorem claim_cases {w : Nat} (h : Step api s (.claim w) s') :
    (s' = s ∧ event (s, .claim w) = none ∧ (s.db.nextJob = none ∨ 32767 < w)) ∨
      ∃ j j', s.db.nextJob = some j ∧ claimSet w s.now j = some j' ∧
        event (s, .claim w) = some (.start (j.id, j.address)) ∧ s' = s.take w j' := by
  simp only [Step, step] at h
  split at h
  · simp only [event]
    cases hnext : s.db.nextJob with
    | none =>
      have hnone : s.db.claimPendingJob w s.now = .ok (none, s.db) := by
        unfold Db.claimPendingJob
        rw [hnext]
      rw [hnone] at h ⊢
      exact Or.inl ⟨(Option.some.inj h).symm, rfl, Or.inl rfl⟩
    | some j =>
      cases hset : claimSet w s.now j with
      | none =>
        have herror : s.db.claimPendingJob w s.now = .error "smallint out of range" := by
          unfold Db.claimPendingJob
          rw [hnext]
          simp only [hset]
        have hw : 32767 < w := by
          by_contra hle
          rw [Db.claimSet_of_le (by omega)] at hset
          exact absurd hset (by simp)
        rw [herror] at h ⊢
        exact Or.inl ⟨(Option.some.inj h).symm, rfl, Or.inr hw⟩
      | some j' =>
        have hok : s.db.claimPendingJob w s.now = .ok (some j'.claimed, s.db.setJob j') := by
          unfold Db.claimPendingJob
          rw [hnext]
          simp only [hset]
        rw [hok] at h ⊢
        obtain ⟨n, -, rfl⟩ := Db.claimSet_eq_some hset
        exact Or.inr ⟨j, _, rfl, hset, rfl, (Option.some.inj h).symm⟩
  · exact absurd h (by simp)

theorem ordered_step (ho : s.db.Ordered) (h : Guarded (Step api) InTurn s a s') : s'.db.Ordered := by
  obtain ⟨hstep, hturn⟩ := h
  cases step_next hstep with
  | ticked => exact ho
  | created ha => rcases ha with rfl | rfl <;> exact Db.ordered_createProcessingJob ho hturn
  | foundNothing hw => exact ho
  | claimed ha hw hj hp hset =>
    obtain ⟨n, -, rfl⟩ := Db.claimSet_eq_some hset
    exact Db.ordered_setJob ho hj rfl rfl
  | lostClaim hw hj hp hset =>
    obtain ⟨n, -, rfl⟩ := Db.claimSet_eq_some hset
    exact Db.ordered_setJob ho hj rfl rfl
  | called hw hn => exact hn.ordered ho
  | lostCall hw hi hn => exact hn.ordered ho
  | crashed hw => exact ho
  | restarted hw => exact ho

theorem queue_claim (ho : s.db.Ordered) {w : Nat} (h : Step api s (.claim w) s') :
    (s'.db.queue = s.db.queue ∧ event (s, .claim w) = none) ∨
      ∃ b, KeyQueue.Step s.db.queue b s'.db.queue ∧ b.visible = event (s, .claim w) := by
  rcases claim_cases h with ⟨rfl, he, -⟩ | ⟨j, j', hnext, hset, he, rfl⟩
  · exact Or.inl ⟨rfl, he⟩
  · exact Or.inr ⟨_, Db.queue_claim ho hnext hset, he.symm⟩

/-- **The jobs are a queue**: each step is followed by one of the queue's, or it does not see it. -/
theorem queue_step (ho : s.db.Ordered) (h : Guarded (Step api) InTurn s a s') :
    (s'.db.queue = s.db.queue ∧ event (s, a) = none) ∨
      ∃ b, KeyQueue.Step s.db.queue b s'.db.queue ∧ b.visible = event (s, a) := by
  obtain ⟨hstep, hturn⟩ := h
  cases step_next hstep with
  | ticked => exact Or.inl ⟨rfl, rfl⟩
  | @created a address txLimit requestedHours ha =>
    refine Or.inr ⟨.arrive (s.db.nextId, address), ?_, by rcases ha with rfl | rfl <;> rfl⟩
    show KeyQueue.Step _ _ (s.db.createProcessingJob address txLimit requestedHours s.now).2.queue
    rw [Db.queue_createProcessingJob]
    exact KeyQueue.Step.arrive (s.db.nextId, address)
  | foundNothing hw => exact queue_claim ho hstep
  | claimed ha hw hj hp hset =>
    rcases ha with ⟨rfl, -⟩ | rfl
    · exact queue_claim ho hstep
    · exact hturn.elim
  | @lostClaim w j j' hw hj hp hset =>
    -- not overlapping, it has taken the next job
    obtain ⟨x, hnext, hid⟩ := hturn
    have hnext := Option.mem_def.mp hnext
    obtain rfl := Table.eq_of_key (Db.nextJob_eq_some hnext).1 hj hid
    exact Or.inr ⟨_, Db.queue_claim ho hnext hset, by simp only [event, hnext]; rfl⟩
  | called hw hn =>
    rcases hn.queue with hq | ⟨k, hk⟩
    · exact Or.inl ⟨hq, rfl⟩
    · exact Or.inr ⟨_, hk, rfl⟩
  | lostCall hw hi hn =>
    rcases hn.queue with hq | ⟨k, hk⟩
    · exact Or.inl ⟨hq, rfl⟩
    · exact Or.inr ⟨_, hk, rfl⟩
  | crashed hw => exact Or.inl ⟨rfl, rfl⟩
  | restarted hw => exact Or.inl ⟨rfl, rfl⟩

/-! ## Runs -/

variable {now : Int} {tr : List (Sys × Act)}

/-- **Created, then claimed, in one order**: the jobs of an address that were claimed, and then
those that are pending, are the jobs that were created for it. -/
theorem claims_in_order (h : Run (Guarded (Step api) InTurn) (Sys.init now) tr s)
    (address : String) : claimed address tr ++ pending address s = created address tr := by
  obtain ⟨l, hl, hevents⟩ := h.simulates (I := fun s => s.db.Ordered) (fun s => s.db.queue.waiting)
    event KeyQueue.Act.visible (fun _ _ _ => ordered_step)
    (fun _ _ _ ho hs => (queue_step ho hs).imp (fun hq => ⟨by rw [hq.1], hq.2⟩)
      fun ⟨b, hb, hvisible⟩ => ⟨b, hb.inOrder, hvisible⟩)
    (ordered_init now)
  have hfifo := KeyQueue.started_append_waiting hl address
  unfold KeyQueue.events at hfifo
  rw [hevents] at hfifo
  exact hfifo

end Sys

end Network

namespace Sys

/-- Two jobs for `"A"` and one for `"B"`. The first fails for want of an answer, and the other one for
`"A"`, whose client got no id, is claimed after that for `"B"`, which no worker learns of. -/
def threeJobs : List Act :=
  [.create "A" 10 1, .tick 1, .createLost "A" 10 1, .tick 1, .create "B" 10 1, .claim 1,
    .claimLost 2 3,
    .call 1 (.signatures serveNothing 100), .call 1 (.done []), .claim 1]

theorem claims_in_order_threeJobs :
    letI : External := smallNetwork [] []
    ∃ tr t, Run (Guarded (Step sampleApi) InTurn) (Sys.init 0) tr t ∧ tr.map Prod.snd = threeJobs ∧
      claimed "A" tr = [1, 2] ∧ claimed "A" tr ++ pending "A" t = created "A" tr := by
  let : External := smallNetwork [] []
  obtain ⟨tr, t, hrun, hlab, htest⟩ := exists_run_of_exec (step sampleApi) (Sys.init 0) threeJobs
    (fun tr _ => (tr.all fun x => decide (InTurn x.1 x.2)) && decide (claimed "A" tr = [1, 2]))
    (by decide +kernel)
  simp only [Bool.and_eq_true, decide_eq_true_eq, List.all_eq_true] at htest
  have hrun := Run.guarded_iff.mpr ⟨hrun, htest.1⟩
  exact ⟨tr, t, hrun, hlab, htest.2, claims_in_order hrun "A"⟩

/-! ## Who is claimed before -/

/-- A worker looks for a job while none of the address is being indexed. Its id fits the column. -/
def looksWhileFree (address : String) : Sys × Act → Bool
  | (s, .claim w) => decide (w ≤ 32767) && !s.db.activeAddress address
  | _ => false

theorem mem_waiting {db : Db} {x : Nat × String} :
    x ∈ db.queue.waiting ↔ ∃ j ∈ db.processingData, j.status = .pending ∧ (j.id, j.address) = x := by
  unfold Db.queue
  simp only [List.mem_map, List.mem_filter, decide_eq_true_eq, and_assoc]
  rfl

theorem waiting_nodup (db : Db) : db.queue.waiting.Nodup := by
  refine List.Nodup.of_map Prod.fst ?_
  unfold Db.queue
  rw [List.map_map]
  exact db.processingData.nodup.sublist (List.filter_sublist.map _)

theorem keys_of_le {db db' : Db} (hle : db.Le db') {k : Nat} (hk : k ∈ db.processingData.keys) :
    k ∈ db'.processingData.keys := by
  obtain ⟨j, hj, rfl⟩ := Table.mem_keys.mp hk
  obtain ⟨j', hj', hs⟩ := hle.jobs j hj
  exact Table.mem_keys.mpr ⟨j', hj', hs.1⟩

/-- The pending jobs that are older. -/
def older (s : Sys) (j : ProcessingData) : Nat :=
  s.db.processingData.rows.countP fun k => k.status = .pending && k.createdAt < j.createdAt

theorem idxOf_le_older {s : Sys} (ho : s.db.Ordered) {j : ProcessingData}
    (hj : j ∈ s.db.processingData) (hp : j.status = .pending) :
    s.db.queue.waiting.idxOf (j.id, j.address) ≤ s.older j := by
  obtain ⟨before, after, hrows⟩ := List.append_of_mem (Table.mem_rows.mpr hj)
  have hbefore : ∀ k ∈ before, k.createdAt < j.createdAt := by
    unfold Db.Ordered at ho
    rw [hrows, List.map_append, List.pairwise_append] at ho
    exact fun k hk => ho.2.2 _ (List.mem_map_of_mem hk) _ List.mem_cons_self
  have hidx : s.db.queue.waiting.idxOf (j.id, j.address) ≤
      (before.filter fun k => k.status = .pending).length := by
    unfold Db.queue
    simp only [hrows, List.filter_append, List.filter_cons, hp, decide_true, if_true,
      List.map_append, List.map_cons]
    rw [List.idxOf_append]
    split
    · rename_i hmem
      have := List.idxOf_lt_length_of_mem hmem
      rw [List.length_map] at this
      omega
    · simp
  calc s.db.queue.waiting.idxOf (j.id, j.address)
      ≤ before.countP fun k => decide (k.status = .pending) := by
        rwa [List.countP_eq_length_filter]
    _ = before.countP fun k => k.status = .pending && k.createdAt < j.createdAt := by
        refine List.countP_congr fun k hk => ?_
        simp [hbefore k hk]
    _ ≤ s.older j := by
        unfold older
        rw [hrows, List.countP_append]
        exact Nat.le_add_right _ _

section Waiting

variable [External] {api : HeliusApi} {s s' : Sys} {a : Act} {now : Int} {tr : List (Sys × Act)}

/-- **A look while the address is free** claims an older job. -/
theorem waits_step (ho : s.db.Ordered) (h : Guarded (Step api) InTurn s a s') {x : Nat × String}
    (hx : x ∈ s.db.queue.waiting) (hx' : x ∈ s'.db.queue.waiting) :
    (looksWhileFree x.2 (s, a)).toNat + s'.db.queue.waiting.idxOf x ≤ s.db.queue.waiting.idxOf x := by
  have hlooks : looksWhileFree x.2 (s, a) = true →
      s.db.activeAddress x.2 = false ∧ ∃ y, event (s, a) = some (.start y) := by
    intro hl
    cases a with
    | claim w =>
      simp only [looksWhileFree, Bool.and_eq_true, decide_eq_true_eq, Bool.not_eq_true'] at hl
      refine ⟨hl.2, ?_⟩
      rcases claim_cases h.1 with ⟨-, -, hnone | hw⟩ | ⟨j, j', -, -, he, -⟩
      · -- the job itself could have been claimed
        obtain ⟨j, hj, hp, rfl⟩ := mem_waiting.mp hx
        have hnot := Db.nextJob_eq_none.mp hnone j hj
        exact absurd hnot (by simp [Db.claimable, hp, hl.2])
      · omega
      · exact ⟨_, he⟩
    | _ => exact absurd hl (by simp [looksWhileFree])
  rcases queue_step ho h with ⟨hq, hnone⟩ | ⟨b, hb, hvisible⟩
  · cases hl : looksWhileFree x.2 (s, a) with
    | true =>
      obtain ⟨-, y, hy⟩ := hlooks hl
      exact absurd (hnone.symm.trans hy) (by simp)
    | false => rw [hq, Bool.toNat_false, Nat.zero_add]
  · obtain ⟨hle, hlt⟩ := hb.idxOf (waiting_nodup s.db) hx hx'
    cases hl : looksWhileFree x.2 (s, a) with
    | true =>
      obtain ⟨hfree, y, hy⟩ := hlooks hl
      have hstarted : b.started.isSome = true := by
        rw [hy] at hvisible
        cases b with
        | start z => rfl
        | _ => exact absurd hvisible (by simp [KeyQueue.Act.visible])
      have := hlt hstarted hfree
      rw [Bool.toNat_true]
      omega
    | false => rwa [Bool.toNat_false, Nat.zero_add]

/-- A pending job was pending since it was created. -/
theorem waiting_of_step (ho : s.db.Ordered) (h : Guarded (Step api) InTurn s a s') {x : Nat × String}
    (hkey : x.1 ∈ s.db.processingData.keys) (hx' : x ∈ s'.db.queue.waiting) :
    x ∈ s.db.queue.waiting := by
  rcases queue_step ho h with ⟨hq, -⟩ | ⟨b, hb, hvisible⟩
  · exact hq ▸ hx'
  · rcases hb.mem_waiting hx' with hx | harrived
    · exact hx
    · have hnew : event (s, a) = some (.arrive x) := by
        rw [← hvisible]
        cases b with
        | arrive y => exact congrArg _ (congrArg _ (Option.some.inj harrived))
        | _ => exact absurd harrived (by simp [KeyQueue.Act.arrived])
      -- its id had been given out
      have hnext : x.1 = s.db.nextId := by
        cases a with
        | create address txLimit requestedHours =>
          simp only [event, Option.some.injEq, KeyQueue.Act.arrive.injEq] at hnew
          rw [← hnew]
        | createLost address txLimit requestedHours =>
          simp only [event, Option.some.injEq, KeyQueue.Act.arrive.injEq] at hnew
          rw [← hnew]
        | claim w =>
          simp only [event] at hnew
          split at hnew
          · exact absurd hnew (by simp)
          · exact absurd hnew (by simp)
        | _ => exact absurd hnew (by simp [event])
      exact absurd (s.db.seq _ hkey) (by omega)

/-- **While a job waits**, from a state on. -/
theorem waits_run {u : Sys} {part : List (Sys × Act)} (ho : u.db.Ordered) {x : Nat × String}
    (h : Run (Guarded (Step api) InTurn) u part s) (hx : x ∈ u.db.queue.waiting)
    (hx' : x ∈ s.db.queue.waiting) :
    part.countP (looksWhileFree x.2) + s.db.queue.waiting.idxOf x ≤ u.db.queue.waiting.idxOf x := by
  have hkey : x.1 ∈ u.db.processingData.keys := by
    obtain ⟨j, hj, -, rfl⟩ := mem_waiting.mp hx
    exact Table.key_mem_keys hj
  induction h with
  | refl => simp
  | @tail part t s a hr hs ih =>
    have hinv := hr.invariant (I := fun t => t.db.Ordered ∧ x.1 ∈ t.db.processingData.keys)
      (fun _ _ _ hi hs => ⟨ordered_step hi.1 hs, keys_of_le (step_next hs.1).le hi.2⟩) ⟨ho, hkey⟩
    have hxt := waiting_of_step hinv.1 hs hinv.2 hx'
    have hsofar := ih hxt
    have hstep := waits_step hinv.1 hs hxt hx'
    rw [List.countP_append, List.countP_singleton]
    cases hl : looksWhileFree x.2 (t, a) with
    | true => rw [hl, Bool.toNat_true] at hstep; simp only [if_true]; omega
    | false => rw [hl, Bool.toNat_false] at hstep; simp only [Bool.false_eq_true, if_false]; omega

/-- **Served in turn**: while a job is pending, and none of its address is being indexed, workers
look for a job at most once for each older pending one. -/
theorem served_in_turn {u : Sys} {part : List (Sys × Act)}
    (hu : Run (Guarded (Step api) InTurn) (Sys.init now) tr u)
    (h : Run (Guarded (Step api) InTurn) u part s) {j : ProcessingData}
    (hj : j ∈ u.db.processingData) (hp : j.status = .pending)
    (hstill : ∃ j' ∈ s.db.processingData, j'.id = j.id ∧ j'.status = .pending) :
    part.countP (looksWhileFree j.address) ≤ u.older j := by
  have ho : u.db.Ordered := hu.invariant (fun _ _ _ hi hs => ordered_step hi hs) (ordered_init now)
  have hx' : (j.id, j.address) ∈ s.db.queue.waiting := by
    obtain ⟨j', hj', hid, hp'⟩ := hstill
    have hle := (Run.guarded_iff.mp h).1.relation (R := fun s t : Sys => s.db.Le t.db)
      (fun s => .refl s.db) (fun h h' => h.trans h') (fun _ _ _ hs => (step_next hs).le)
    obtain ⟨k, hk, hsame⟩ := hle.jobs j hj
    obtain rfl := Table.eq_of_key hk hj' (hsame.1.trans hid.symm)
    exact mem_waiting.mpr ⟨k, hk, hp', by rw [hsame.1, hsame.2.1]⟩
  have hx : (j.id, j.address) ∈ u.db.queue.waiting := mem_waiting.mpr ⟨j, hj, hp, rfl⟩
  have hwaits := waits_run ho h hx hx'
  simp only at hwaits
  have hidx := idxOf_le_older ho hj hp
  omega

end Waiting

/-- The second job for `"A"`, until the first has been claimed. -/
theorem served_in_turn_second :
    letI : External := smallNetwork [] []
    ∃ tr u part t, Run (Guarded (Step sampleApi) InTurn) (Sys.init 0) tr u ∧
      Run (Guarded (Step sampleApi) InTurn) u part t ∧
      ∃ j ∈ u.db.processingData, j.id = 2 ∧ j.status = .pending ∧
        (∃ j' ∈ t.db.processingData, j'.id = j.id ∧ j'.status = .pending) ∧
        part.countP (looksWhileFree j.address) = 1 ∧
        part.countP (looksWhileFree j.address) ≤ u.older j := by
  let : External := smallNetwork [] []
  let s1 : Sys := ⟨(Db.empty.createProcessingJob "A" 10 1 0).2, 0, fun _ => .idle⟩
  let s2 : Sys := { s1 with now := 1 }
  let u : Sys := { s2 with db := (s2.db.createProcessingJob "A" 10 1 1).2 }
  let t : Sys := u.take 1 ⟨1, "A", .indexing, 0, 1, some 1, 10, 1⟩
  have h1 : Guarded (Step sampleApi) InTurn (Sys.init 0) (.create "A" 10 1) s1 :=
    ⟨rfl, by decide +kernel⟩
  have h2 : Guarded (Step sampleApi) InTurn s1 (.tick 1) s2 := ⟨rfl, trivial⟩
  have h3 : Guarded (Step sampleApi) InTurn s2 (.create "A" 10 1) u := ⟨rfl, by decide +kernel⟩
  have h4 : Guarded (Step sampleApi) InTurn u (.claim 1) t := ⟨rfl, trivial⟩
  have hu := ((Run.single h1).tail h2).tail h3
  have hj : (⟨2, "A", .pending, 1, 1, none, 10, 1⟩ : ProcessingData) ∈ u.db.processingData :=
    by decide +kernel
  have hstill : ∃ j' ∈ t.db.processingData, j'.id = 2 ∧ j'.status = .pending := by decide +kernel
  exact ⟨_, u, _, t, hu, Run.single h4, _, hj, rfl, rfl, hstill, by decide +kernel,
    served_in_turn hu (Run.single h4) hj rfl hstill⟩

end Sys

end OnChainEventIndexer
