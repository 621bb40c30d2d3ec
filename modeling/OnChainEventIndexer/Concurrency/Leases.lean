import OnChainEventIndexer.Db.Signatures
import OnChainEventIndexer.Lib.ReadCommitted
import OnChainEventIndexer.Lib.Run

/-!
# Signature leases

`get_unprocessed_signatures`, `mark_signatures_processed` and `write_signatures` by any number of
workers, under READ COMMITTED (`Lib/ReadCommitted.lean`). The first two are statements in several
steps, with the `WHERE` and `SET` clauses of `Db/Signatures.lean`. An insert locks no existing row,
so `write` is one step, at its commit: the rows whose keys are free by then are added.

A `Lease` is what a committed claim returned, with its `NOW()`. `signature_leases`: two leases of
one signature are more than five minutes apart, and a processed signature stays processed and is
leased to nobody. The clocks of the statements are arbitrary; that they are apart comes from the
re-check of the newest row version alone.
-/

namespace OnChainEventIndexer.Leases

open Keyed ReadCommitted Lts

/-- The statements on `signatures` that change rows. -/
inductive Stmt
  | claim (address : String) (limit : Nat) (now : Int)
  | mark (address : String) (signatures : List String)
deriving DecidableEq

/-- The statements of `db/signatures.rs`. -/
def sem : Semantics Stmt SignatureRow.key where
  cond
    | .claim address _ now, r => r.claimable address now
    | .mark address signatures, r => Db.ownedIn address signatures r && !r.isProcessed
  order _ _ := 0
  set
    | .claim _ _ now, r => some (r.claim now)
    | .mark _ _, r => some r.mark
  set_key {o r r'} h := by
    cases o with
    | claim address limit now =>
      obtain rfl := Option.some.inj h
      exact r.claim_key now
    | mark address signatures =>
      obtain rfl := Option.some.inj h
      exact r.mark_key
  skipLocked
    | .claim _ _ _ => true
    | .mark _ _ => false
  limit
    | .claim _ limit _ => some limit
    | .mark _ _ => none

/-- The committed signatures and the statements in progress. -/
abbrev Sigs := State Stmt SignatureRow.key

/-- A step of one of the locking statements, or a whole `write_signatures`. -/
inductive Act
  | begin (t : Nat) (o : Stmt) (todo : List (String × String))
  | visit (t : Nat)
  | commit (t : Nat)
  | abort (t : Nat)
  | write (signatures : RpcResponse) (address : String)

/-- The rows `write_signatures` leaves. -/
def written (rows : Table SignatureRow.key) (signatures : RpcResponse) (address : String) :
    Table SignatureRow.key :=
  rows.insertAll (signatures.result.map (Db.signatureRow address))

/-- One step of the system. -/
def step (s : Sigs) : Act → Option Sigs
  | .begin t o todo => ReadCommitted.step sem s (.begin t o todo)
  | .visit t => ReadCommitted.step sem s (.visit t)
  | .commit t => ReadCommitted.step sem s (.commit t)
  | .abort t => ReadCommitted.step sem s (.abort t)
  | .write signatures address => some { s with rows := written s.rows signatures address }

/-- The steps as a relation. -/
def Step (s : Sigs) (a : Act) (s' : Sigs) : Prop := step s a = some s'

/-- Any rows, no open statement. -/
def init (rows : Table SignatureRow.key) : Sigs := ⟨rows, Table.empty⟩

/-- The rows are those of the statement executed alone. -/
theorem written_eq (db : Db) (signatures : RpcResponse) (address : String) :
    written db.signatures signatures address =
      (db.writeSignatures signatures address).2.signatures :=
  (Db.writeSignatures_signatures db signatures address).symm

/-! ## What the claims return -/

/-- What a claim returned, and its `NOW()`. -/
structure Lease where
  now : Int
  keys : List (String × String)
deriving DecidableEq

/-- The lease a step grants: the rows a claim locked, when it commits. -/
def leaseOf (s : Sigs) : Act → Option Lease
  | .commit t => (s.opened.find? t).bind fun o =>
    match o.op with
    | .claim _ _ now => some ⟨now, o.held⟩
    | .mark _ _ => none
  | _ => none

/-- The keys of the rows a step marks: those a mark locked, when it commits. -/
def markedBy (s : Sigs) : Act → List (String × String)
  | .commit t =>
    match s.opened.find? t with
    | some ⟨_, .mark _ _, _, held⟩ => held
    | _ => []
  | _ => []

/-- The leases of a run, oldest first. -/
def leases (tr : List (Sigs × Act)) : List Lease := tr.filterMap fun x => leaseOf x.1 x.2

/-- The keys marked in a run. -/
def marked (tr : List (Sigs × Act)) : List (String × String) :=
  tr.flatMap fun x => markedBy x.1 x.2

/-- The keys of the processed rows. -/
def processed (s : Sigs) : List (String × String) :=
  (s.rows.rows.filter fun r => r.isProcessed).map SignatureRow.key

theorem mem_processed {s : Sigs} {k : String × String} :
    k ∈ processed s ↔ ∃ r ∈ s.rows, r.key = k ∧ r.isProcessed = true := by
  unfold processed
  rw [List.mem_map]
  constructor
  · rintro ⟨r, hr, rfl⟩
    obtain ⟨hm, hp⟩ := List.mem_filter.mp hr
    exact ⟨r, hm, rfl, hp⟩
  · rintro ⟨r, hm, rfl, hp⟩
    exact ⟨r, List.mem_filter.mpr ⟨hm, hp⟩, rfl⟩

theorem leaseOf_eq_some {s : Sigs} {a : Act} {l : Lease} (h : leaseOf s a = some l) :
    ∃ o ∈ s.opened, a = .commit o.tid ∧ o.held = l.keys ∧
      ∃ address limit, o.op = .claim address limit l.now := by
  cases a with
  | commit t =>
    obtain ⟨⟨tid, op, todo, held⟩, ho, hl⟩ := Option.bind_eq_some_iff.mp h
    obtain ⟨hmem, rfl⟩ := Table.find?_eq_some.mp ho
    cases op with
    | claim address limit now =>
      obtain rfl := Option.some.inj hl
      exact ⟨_, hmem, rfl, rfl, address, limit, rfl⟩
    | mark address signatures => exact absurd hl (by simp)
  | _ => exact absurd h (by simp [leaseOf])

theorem mem_markedBy {s : Sigs} {a : Act} {k : String × String} (h : k ∈ markedBy s a) :
    ∃ o ∈ s.opened, a = .commit o.tid ∧ k ∈ o.held ∧ ∃ address signatures,
      o.op = .mark address signatures := by
  cases a with
  | commit t =>
    unfold markedBy at h
    simp only at h
    split at h
    · rename_i tid address signatures todo held ho
      obtain ⟨hmem, rfl⟩ := Table.find?_eq_some.mp ho
      exact ⟨_, hmem, rfl, h, address, signatures, rfl⟩
    · exact absurd h List.not_mem_nil
  | _ => exact absurd h List.not_mem_nil

/-! ## What a step does to a row -/

/-- A row stays as it is, is claimed, or is marked. -/
inductive SigStep (r : SignatureRow) : SignatureRow → Prop
  | same : SigStep r r
  | claimed (address : String) (now : Int) (hc : r.claimable address now = true) :
      SigStep r (r.claim now)
  | marked : SigStep r r.mark

theorem SigStep.key_eq {r r' : SignatureRow} (h : SigStep r r') : r'.key = r.key := by
  cases h with
  | same => rfl
  | claimed address now hc => exact r.claim_key now
  | marked => exact r.mark_key

theorem sigStep_of_rowStep {s : Sigs} {a : Label Stmt SignatureRow (String × String)}
    {r r' : SignatureRow} (h : RowStep sem s a r r') : SigStep r r' := by
  rcases h with ⟨rfl, -⟩ | ⟨⟨t, op, todo, held⟩, ho, -, -, hcond, hset⟩
  · exact .same
  · cases op with
    | claim address limit now =>
      obtain rfl := Option.some.inj hset
      exact .claimed address now hcond
    | mark address signatures =>
      obtain rfl := Option.some.inj hset
      exact .marked

theorem locks_written {s : Sigs} (hl : Locks sem s) (signatures : RpcResponse)
    (address : String) : Locks sem { s with rows := written s.rows signatures address } := by
  refine ⟨fun o ho k hk => ?_, hl.excl⟩
  obtain ⟨r, hr, hrk, hc⟩ := hl.cond o ho k hk
  exact ⟨r, Table.mem_insertAll_of_mem _ hr, hrk, hc⟩

/-- **One step**: the locks are kept, and every row has a successor. -/
theorem step_rows {s s' : Sigs} {a : Act} (hl : Locks sem s) (h : Step s a s') :
    Locks sem s' ∧ ∀ r ∈ s.rows, ∃ r' ∈ s'.rows, SigStep r r' := by
  have stmt : ∀ b, ReadCommitted.step sem s b = some s' →
      Locks sem s' ∧ ∀ r ∈ s.rows, ∃ r' ∈ s'.rows, SigStep r r' := by
    intro b hb
    refine ⟨locks_step hl hb, fun r hr => ?_⟩
    obtain ⟨r', hr', hstep⟩ := row_next hl hb hr
    exact ⟨r', hr', sigStep_of_rowStep hstep⟩
  cases a with
  | begin t o todo => exact stmt (.begin t o todo) h
  | visit t => exact stmt (.visit t) h
  | commit t => exact stmt (.commit t) h
  | abort t => exact stmt (.abort t) h
  | write signatures address =>
    obtain rfl := Option.some.inj h
    exact ⟨locks_written hl signatures address, fun r hr =>
      ⟨r, Table.mem_insertAll_of_mem _ hr, .same⟩⟩

/-- A committing statement turns the row of each key it holds into `SET` of that row, which
satisfies its `WHERE` clause at that moment. -/
theorem commit_row {s s' : Sigs} {o : Open Stmt (String × String)} (hl : Locks sem s)
    (ho : o ∈ s.opened) (h : ReadCommitted.step sem s (.commit o.tid) = some s')
    {k : String × String} (hk : k ∈ o.held) :
    ∃ r ∈ s.rows, r.key = k ∧ sem.cond o.op r = true ∧ ∃ r' ∈ s'.rows, sem.set o.op r = some r' := by
  obtain ⟨r, hr, rfl, hc⟩ := hl.cond o ho k hk
  refine ⟨r, hr, rfl, hc, ?_⟩
  obtain ⟨r', hr', hrow⟩ := row_next hl h hr
  refine ⟨r', hr', ?_⟩
  rcases hrow with ⟨-, hno⟩ | ⟨o', ho', he, -, -, hset⟩
  · exact absurd hk (hno o ho rfl)
  · rw [← Table.eq_of_key ho' ho (Label.commit.inj he).symm]
    exact hset

/-! ## Leases are exclusive -/

/-- A lease of time `now` is still recorded in the row: it is processed, or held since `now` or
later. -/
def Covered (now : Int) (r : SignatureRow) : Prop :=
  r.isProcessed = true ∨
    (r.isProcessing = true ∧ ∃ started, r.processingStartedAt = some started ∧ now ≤ started)

/-- A covered row can be claimed only more than five minutes after its lease. -/
theorem Covered.lt {now now' : Int} {r : SignatureRow} (h : Covered now r) {address : String}
    (hc : r.claimable address now' = true) : now + fiveMinutes < now' := by
  obtain ⟨-, hp, hs⟩ := SignatureRow.claimable_eq_true.mp hc
  rcases h with hp' | ⟨hi, started, hst, hle⟩
  · rw [hp'] at hp
    exact absurd hp (by simp)
  · rcases hs with hi' | hs
    · rw [hi'] at hi
      exact absurd hi (by simp)
    · have := hs started hst
      omega

theorem Covered.step {now : Int} {r r' : SignatureRow} (h : Covered now r) (hs : SigStep r r') :
    Covered now r' := by
  cases hs with
  | same => exact h
  | claimed address now' hc =>
    have hlt := h.lt hc
    have hpos : (0 : Int) ≤ fiveMinutes := by decide
    exact Or.inr ⟨rfl, now', rfl, by omega⟩
  | marked => exact Or.inl rfl

/-- Two leases of one signature, the first one granted first, are more than five minutes apart. -/
def Apart (l l' : Lease) : Prop := ∀ k ∈ l.keys, k ∈ l'.keys → l.now + fiveMinutes < l'.now

/-- What is known after a run. -/
structure Granted (tr : List (Sigs × Act)) (t : Sigs) : Prop where
  locks : Locks sem t
  covered : ∀ l ∈ leases tr, ∀ k ∈ l.keys, ∃ r ∈ t.rows, r.key = k ∧ Covered l.now r
  apart : (leases tr).Pairwise Apart

/-- The rows of a lease were claimable, and are claimed by it. -/
theorem lease_rows {s s' : Sigs} {a : Act} {l : Lease} (hl : Locks sem s) (h : Step s a s')
    (hlease : leaseOf s a = some l) {k : String × String} (hk : k ∈ l.keys) :
    (∃ r ∈ s.rows, r.key = k ∧ ∃ address, r.claimable address l.now = true) ∧
      ∃ r' ∈ s'.rows, r'.key = k ∧ Covered l.now r' := by
  obtain ⟨o, ho, rfl, hheld, address, limit, hop⟩ := leaseOf_eq_some hlease
  obtain ⟨r, hr, rfl, hc, r', hr', hset⟩ := commit_row hl ho h (hheld ▸ hk)
  rw [hop] at hc hset
  obtain rfl := Option.some.inj hset
  exact ⟨⟨r, hr, rfl, address, hc⟩, _, hr', r.claim_key l.now,
    Or.inr ⟨rfl, l.now, rfl, Int.le_refl _⟩⟩

theorem granted_step {tr : List (Sigs × Act)} {t u : Sigs} {a : Act} (hg : Granted tr t)
    (h : Step t a u) : Granted (tr ++ [(t, a)]) u := by
  obtain ⟨hlocks, hrows⟩ := step_rows hg.locks h
  have hkeep : ∀ l ∈ leases tr, ∀ k ∈ l.keys, ∃ r ∈ u.rows, r.key = k ∧ Covered l.now r := by
    intro l hl k hk
    obtain ⟨r, hr, rfl, hc⟩ := hg.covered l hl k hk
    obtain ⟨r', hr', hs⟩ := hrows r hr
    exact ⟨r', hr', hs.key_eq, hc.step hs⟩
  have hsnoc : leases (tr ++ [(t, a)]) = leases tr ++ (leaseOf t a).toList := by
    unfold leases
    rw [List.filterMap_append]
    cases hl : leaseOf t a <;> simp [hl]
  cases hl : leaseOf t a with
  | none =>
    rw [hl, Option.toList_none, List.append_nil] at hsnoc
    exact ⟨hlocks, by rw [hsnoc]; exact hkeep, by rw [hsnoc]; exact hg.apart⟩
  | some l =>
    rw [hl, Option.toList_some] at hsnoc
    refine ⟨hlocks, ?_, ?_⟩
    · rw [hsnoc]
      intro l' hl' k hk
      rcases List.mem_append.mp hl' with hl' | hl'
      · exact hkeep l' hl' k hk
      · obtain rfl := List.mem_singleton.mp hl'
        exact (lease_rows hg.locks h hl hk).2
    · rw [hsnoc]
      refine List.pairwise_append.mpr ⟨hg.apart, List.pairwise_singleton _ _, ?_⟩
      intro l' hl' x hx k hk' hk
      obtain rfl := List.mem_singleton.mp hx
      -- the row the earlier lease covers is the one this claim finds claimable
      obtain ⟨r', hr', rfl, hc'⟩ := hg.covered l' hl' k hk'
      obtain ⟨⟨r, hr, hrk, address, hc⟩, -⟩ := lease_rows hg.locks h hl hk
      rw [Table.eq_of_key hr hr' hrk] at hc
      exact hc'.lt hc

theorem granted_run {rows : Table SignatureRow.key} {tr : List (Sigs × Act)} {t : Sigs}
    (h : Run Step (init rows) tr t) : Granted tr t :=
  h.invariant_trace
    ⟨locks_init rows, fun _ hl => absurd hl List.not_mem_nil, List.Pairwise.nil⟩
    fun _ _ _ _ _ hg hs => granted_step hg hs

/-! ## Processed is for good -/

theorem processed_step {s s' : Sigs} {a : Act} (hl : Locks sem s) (h : Step s a s')
    {k : String × String} (hk : k ∈ processed s) : k ∈ processed s' := by
  obtain ⟨r, hr, rfl, hp⟩ := mem_processed.mp hk
  obtain ⟨r', hr', hs⟩ := (step_rows hl h).2 r hr
  refine mem_processed.mpr ⟨r', hr', hs.key_eq, ?_⟩
  cases hs with
  | same => exact hp
  | claimed address now hc => exact hp
  | marked => rfl

/-- A mark that commits leaves the rows it held processed. -/
theorem markedBy_processed {s s' : Sigs} {a : Act} (hl : Locks sem s) (h : Step s a s')
    {k : String × String} (hk : k ∈ markedBy s a) : k ∈ processed s' := by
  obtain ⟨o, ho, rfl, hheld, address, signatures, hop⟩ := mem_markedBy hk
  obtain ⟨r, -, rfl, -, r', hr', hset⟩ := commit_row hl ho h hheld
  rw [hop] at hset
  obtain rfl := Option.some.inj hset
  exact mem_processed.mpr ⟨_, hr', r.mark_key, rfl⟩

/-- No claim returns a processed signature. -/
theorem lease_not_processed {s s' : Sigs} {a : Act} {l : Lease} (hl : Locks sem s)
    (h : Step s a s') (hlease : leaseOf s a = some l) {k : String × String} (hk : k ∈ processed s) :
    k ∉ l.keys := by
  intro hkl
  obtain ⟨r, hr, rfl, hp⟩ := mem_processed.mp hk
  obtain ⟨⟨r', hr', hrk, address, hc⟩, -⟩ := lease_rows hl h hlease hkl
  rw [Table.eq_of_key hr' hr hrk] at hc
  rw [(SignatureRow.claimable_eq_true.mp hc).2.1] at hp
  exact absurd hp (by simp)

/-- From a state in which `k` is processed on, it stays processed and is leased to nobody. -/
theorem processed_run {s t : Sigs} {tr : List (Sigs × Act)} (h : Run Step s tr t)
    (hl : Locks sem s) {k : String × String} (hk : k ∈ processed s) :
    k ∈ processed t ∧ ∀ l ∈ leases tr, k ∉ l.keys := by
  refine (h.invariant_trace (I := fun tr t => Locks sem t ∧ k ∈ processed t ∧
    ∀ l ∈ leases tr, k ∉ l.keys) ⟨hl, hk, fun _ hl => absurd hl List.not_mem_nil⟩ ?_).2
  rintro tr t a u - ⟨hl, hk, hno⟩ hs
  refine ⟨(step_rows hl hs).1, processed_step hl hs hk, fun l hlm => ?_⟩
  unfold leases at hlm
  rw [List.filterMap_append] at hlm
  rcases List.mem_append.mp hlm with hlm | hlm
  · exact hno l hlm
  · obtain ⟨x, hx, hlease⟩ := List.mem_filterMap.mp hlm
    obtain rfl := List.mem_singleton.mp hx
    exact lease_not_processed hl hs hlease hk

theorem marked_processed {rows : Table SignatureRow.key} {tr : List (Sigs × Act)} {t : Sigs}
    (h : Run Step (init rows) tr t) : ∀ k ∈ marked tr, k ∈ processed t := by
  refine h.invariant_trace (I := fun tr t => ∀ k ∈ marked tr, k ∈ processed t)
    (fun _ hk => absurd hk List.not_mem_nil) ?_
  intro tr t a u hr hm hs k hk
  have hl := (granted_run hr).locks
  unfold marked at hk
  rw [List.flatMap_append] at hk
  rcases List.mem_append.mp hk with hk | hk
  · exact processed_step hl hs (hm k hk)
  · rw [List.flatMap_singleton] at hk
    exact markedBy_processed hl hs hk

/-- **Signature leases are exclusive**, over every run: two claims that both return a signature
have statement times more than five minutes apart, and a signature that is processed, or that a
mark has changed, is processed from then on and returned by no later claim. -/
theorem signature_leases {rows : Table SignatureRow.key} {tr tr' : List (Sigs × Act)} {s t : Sigs}
    (h : Run Step (init rows) tr s) (h' : Run Step s tr' t) :
    (leases (tr ++ tr')).Pairwise Apart ∧
      ∀ k, k ∈ marked tr ∨ k ∈ processed s →
        k ∈ processed t ∧ ∀ l ∈ leases tr', k ∉ l.keys := by
  refine ⟨(granted_run (h.append h')).apart, fun k hk => processed_run h' (granted_run h).locks ?_⟩
  rcases hk with hk | hk
  · exact marked_processed h k hk
  · exact hk

/-- Worker 1 leases a signature; its lease expires and worker 2 takes it over, while worker 1
marks it; the signature is written again, and worker 3 claims nothing. -/
def takeOver : List Act × List Act :=
  ([.write ⟨[⟨some 5, "s"⟩]⟩ "A",
    .begin 1 (.claim "A" 100 0) [("A", "s")], .visit 1, .commit 1,
    .begin 2 (.claim "A" 100 (fiveMinutes + 1)) [("A", "s")], .visit 2, .commit 2,
    .begin 3 (.mark "A" ["s"]) [("A", "s")], .visit 3, .commit 3],
  [.write ⟨[⟨some 5, "s"⟩]⟩ "A", .begin 4 (.claim "A" 100 (2 * fiveMinutes + 5)) [], .commit 4])

theorem signature_leases_takeOver : ∃ tr s tr' t, Run Step (init Table.empty) tr s ∧
    Run Step s tr' t ∧ leases tr = [⟨0, [("A", "s")]⟩, ⟨fiveMinutes + 1, [("A", "s")]⟩] ∧
    ("A", "s") ∈ marked tr ∧ (leases (tr ++ tr')).Pairwise Apart ∧
    ("A", "s") ∈ processed t ∧ ∀ l ∈ leases tr', ("A", "s") ∉ l.keys := by
  obtain ⟨tr, s, hr, -, htest⟩ := exists_run_of_exec step (init Table.empty) takeOver.1
    (fun tr s => decide (leases tr = [⟨0, [("A", "s")]⟩, ⟨fiveMinutes + 1, [("A", "s")]⟩] ∧
      ("A", "s") ∈ marked tr) && (exec step s takeOver.2).any fun _ => true) (by decide)
  rw [Bool.and_eq_true, decide_eq_true_eq] at htest
  obtain ⟨tr', t, hr', -, -⟩ := exists_run_of_exec step s takeOver.2 (fun _ _ => true) htest.2
  obtain ⟨hapart, hproc⟩ := signature_leases hr hr'
  exact ⟨tr, s, tr', t, hr, hr', htest.1.1, htest.1.2, hapart, hproc _ (Or.inl htest.1.2)⟩

end OnChainEventIndexer.Leases
