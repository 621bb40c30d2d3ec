import OnChainEventIndexer.Db.Jobs
import OnChainEventIndexer.Lib.ReadCommitted
import OnChainEventIndexer.Lib.Run
import Mathlib.Data.List.Destutter

/-!
# Concurrent claims and status updates

`create_processing_job`, `claim_pending_job` and `update_processing_status_by_job_id` by any
number of workers, as statements under READ COMMITTED (`Lib/ReadCommitted.lean`). What a
sub-select returns is fixed when its statement starts:
* `claim … active`: `active` lists the addresses that have an indexing job in the snapshot, so the
  row condition is `status = 'pending' AND address NOT IN active`; a row that changed since is
  re-checked with its own newest columns and the same `active`.
* `update … blocked`: `blocked` is the answer of the ready guard's sub-select on `signatures`.

`job_life_cycle`: each job goes through pending, indexing and one terminal status, and is returned
by one claim at most. `oneActive_of_raceFree`: two jobs of one address are never indexing at once
as long as no claim locks a row of an address of which a claim that overlaps it has a job
(`RaceFree`). Claims that were over before the snapshot need no condition: `seen_run` proves that
`NOT EXISTS` sees them.
-/

namespace OnChainEventIndexer.JobClaims

open Keyed ReadCommitted Lts

/-- The statements on `processing_data` that change rows. -/
inductive Stmt
  | claim (workerId : Nat) (now : Int) (active : List String)
  | update (jobId : Nat) (status : Status) (now : Int) (blocked : Bool)
deriving DecidableEq

/-- The statement is `claim_pending_job`. -/
def Stmt.IsClaim : Stmt → Prop
  | .claim _ _ _ => True
  | .update _ _ _ _ => False

instance (o : Stmt) : Decidable o.IsClaim := by
  cases o <;> unfold Stmt.IsClaim <;> infer_instance

/-- The statements of `db/jobs.rs`. -/
def sem : Semantics Stmt ProcessingData.id where
  cond
    | .claim _ _ active, j => j.status = .pending && !decide (j.address ∈ active)
    | .update jobId status _ blocked, j =>
      j.id = jobId && j.status = .indexing && (status ≠ .ready || !blocked)
  order
    | .claim _ _ _, j => j.createdAt
    | .update _ _ _ _, _ => 0
  set
    | .claim workerId now _, j => claimSet workerId now j
    | .update _ status now _, j => some (Db.statusSet status now j)
  set_key {o j j'} h := by
    cases o with
    | claim workerId now active =>
      obtain ⟨w, -, rfl⟩ := Db.claimSet_eq_some h
      rfl
    | update jobId status now blocked =>
      obtain rfl := Option.some.inj h
      rfl
  skipLocked
    | .claim _ _ _ => true
    | .update _ _ _ _ => false
  limit
    | .claim _ _ _ => some 1
    | .update _ _ _ _ => none

/-- The committed jobs and the statements in progress. -/
abbrev Jobs := State Stmt ProcessingData.id

/-- The steps of `Lib/ReadCommitted.lean` for these statements. -/
abbrev Act := Label Stmt ProcessingData Nat

/-- The addresses with an indexing job. -/
def activeAddresses (rows : Table ProcessingData.id) : List String :=
  (rows.rows.filter fun j => j.status = .indexing).map (·.address)

/-- What the code ever sends: jobs are created pending and without a worker, a claim's sub-select
reads the snapshot, and the indexer sets `'ready'` or `'error'`. -/
def Sends (s : Jobs) : Act → Prop
  | .insert j => j.status = .pending ∧ j.workerId = none
  | .begin _ (.claim _ _ active) _ => active = activeAddresses s.rows
  | .begin _ (.update _ status _ _) _ => status = .ready ∨ status = .error
  | .visit _ => True
  | .commit _ => True
  | .abort _ => True

instance (s : Jobs) (a : Act) : Decidable (Sends s a) := by
  unfold Sends
  split <;> infer_instance

/-- One step of the system. -/
def step (s : Jobs) (a : Act) : Option Jobs := if Sends s a then ReadCommitted.step sem s a else none

/-- The steps as a relation. -/
def Step (s : Jobs) (a : Act) (s' : Jobs) : Prop := step s a = some s'

/-- No jobs, no open statement. -/
def init : Jobs := ⟨Table.empty, Table.empty⟩

theorem step_sends {s s' : Jobs} {a : Act} (h : Step s a s') :
    Sends s a ∧ ReadCommitted.step sem s a = some s' := by
  unfold Step step at h
  split at h
  · rename_i hs
    exact ⟨hs, h⟩
  · exact absurd h (by simp)

/-- The snapshot's `active` makes the row condition of a claim the one of the statement executed
alone. -/
theorem claim_cond (db : Db) (workerId : Nat) (now : Int) (j : ProcessingData) :
    sem.cond (.claim workerId now (activeAddresses db.processingData)) j = db.claimable j := by
  have hmem : decide (j.address ∈ activeAddresses db.processingData) =
      db.activeAddress j.address := by
    rw [Bool.eq_iff_iff, decide_eq_true_eq, Db.activeAddress_eq_true]
    unfold activeAddresses
    simp only [List.mem_map, List.mem_filter, decide_eq_true_eq]
    constructor
    · rintro ⟨x, ⟨hx, hs⟩, ha⟩
      exact ⟨x, hx, ha, hs⟩
    · rintro ⟨x, hx, ha, hs⟩
      exact ⟨x, ⟨hx, hs⟩, ha⟩
  simp only [sem, hmem]
  rfl

/-! ## What a step does to a job -/

/-- A job stays as it is, is claimed, or is finished. -/
inductive JobStep (j : ProcessingData) : ProcessingData → Prop
  | same : JobStep j j
  | claimed (hp : j.status = .pending) (w now : Int) :
      JobStep j { j with status := .indexing, workerId := some w, updatedAt := now }
  | finished (hi : j.status = .indexing) (status : Status) (now : Int)
      (ht : status = .ready ∨ status = .error) : JobStep j (Db.statusSet status now j)

/-- What is known of the open statements. -/
structure Inv (s : Jobs) : Prop where
  locks : Locks sem s
  limits : ∀ o ∈ s.opened, ∀ n, sem.limit o.op = some n → o.held.length ≤ n
  terminal : ∀ o ∈ s.opened, ∀ jobId status now blocked,
    o.op = .update jobId status now blocked → status = .ready ∨ status = .error

theorem inv_init : Inv init :=
  ⟨locks_init _, fun o ho => absurd ho (Table.not_mem_empty o),
    fun o ho => absurd ho (Table.not_mem_empty o)⟩

theorem inv_step {s s' : Jobs} {a : Act} (hi : Inv s) (h : Step s a s') : Inv s' := by
  obtain ⟨hsends, h⟩ := step_sends h
  refine ⟨locks_step hi.locks h, held_le_limit hi.limits h, ?_⟩
  have := opened_op (P := fun o => ∀ jobId status now blocked,
    o = .update jobId status now blocked → status = .ready ∨ status = .error) hi.terminal
    (fun t o todo ha jobId status now blocked ho => by
      subst ha ho
      exact hsends) h
  exact this

/-- `LIMIT 1`: a claim locks at most one row. -/
theorem claim_held {s : Jobs} {o : Open Stmt Nat} (hi : Inv s) (ho : o ∈ s.opened)
    (hc : o.op.IsClaim) : o.held = [] ∨ ∃ k, o.held = [k] := by
  have hlen : o.held.length ≤ 1 := by
    refine hi.limits o ho 1 ?_
    obtain ⟨t, op, todo, held⟩ := o
    cases op with
    | claim workerId now active => rfl
    | update jobId status now blocked => exact hc.elim
  match o.held, hlen with
  | [], _ => exact Or.inl rfl
  | [k], _ => exact Or.inr ⟨k, rfl⟩

theorem jobStep_of_rowStep {s : Jobs} {a : Act} {j j' : ProcessingData} (hi : Inv s)
    (h : RowStep sem s a j j') : JobStep j j' := by
  rcases h with ⟨rfl, -⟩ | ⟨⟨t, op, todo, held⟩, ho, -, -, hcond, hset⟩
  · exact .same
  · cases op with
    | claim workerId now active =>
      obtain ⟨w, -, rfl⟩ := Db.claimSet_eq_some hset
      simp only [sem, Bool.and_eq_true, decide_eq_true_eq] at hcond
      exact .claimed hcond.1 w now
    | update jobId status now blocked =>
      obtain rfl := Option.some.inj hset
      simp only [sem, Bool.and_eq_true, decide_eq_true_eq] at hcond
      exact .finished hcond.1.2 status now (hi.terminal _ ho _ _ _ _ rfl)

/-- What holds of a job from its creation on. -/
def JobOk (j : ProcessingData) : Prop := j.workerId = none ↔ j.status = .pending

/-- The columns and values that never change again. -/
def JobKept (j j' : ProcessingData) : Prop :=
  j.SameJob j' ∧ (∀ w, j.workerId = some w → j'.workerId = some w) ∧
    (j.status = .ready ∨ j.status = .error → j'.status = j.status)

theorem JobStep.ok {j j' : ProcessingData} (h : JobStep j j') (hj : JobOk j) : JobOk j' := by
  unfold JobOk at hj ⊢
  cases h with
  | same => exact hj
  | claimed hp w now => simp
  | finished hi status now ht =>
    have : j.workerId ≠ none := fun hn => by
      rw [hj.mp hn] at hi
      exact absurd hi (by simp)
    rcases ht with rfl | rfl <;> simp [Db.statusSet, this]

theorem JobStep.kept {j j' : ProcessingData} (h : JobStep j j') (hj : JobOk j) : JobKept j j' := by
  cases h with
  | same => exact ⟨.refl j, fun _ h => h, fun _ => rfl⟩
  | claimed hp w now =>
    refine ⟨⟨rfl, rfl, rfl, rfl, rfl⟩, fun w' hw => ?_, fun ht => ?_⟩
    · rw [hj.mpr hp] at hw
      exact absurd hw (by simp)
    · rw [hp] at ht
      exact absurd ht (by simp)
  | finished hi status now ht =>
    refine ⟨⟨rfl, rfl, rfl, rfl, rfl⟩, fun _ h => h, fun ht' => ?_⟩
    rw [hi] at ht'
    exact absurd ht' (by simp)

theorem JobKept.trans {j j' j'' : ProcessingData} (h : JobKept j j') (h' : JobKept j' j'') :
    JobKept j j'' :=
  ⟨h.1.trans h'.1, fun w hw => h'.2.1 w (h.2.1 w hw), fun ht =>
    (h'.2.2 (by rw [h.2.2 ht]; exact ht)).trans (h.2.2 ht)⟩

/-! ## The history of a job -/

/-- The statuses a job goes through up to one. -/
def path : Status → List Status
  | .pending => [.pending]
  | .indexing => [.pending, .indexing]
  | .ready => [.pending, .indexing, .ready]
  | .error => [.pending, .indexing, .error]

/-- The versions of job `id` in the states a run visits, oldest first. -/
def history (id : Nat) (tr : List (Jobs × Act)) (t : Jobs) : List ProcessingData :=
  (tr.map Prod.fst ++ [t]).filterMap fun s => s.rows.find? id

/-- The ids the claims of a run return: those of the rows a claim locked, when it commits. -/
def returned (tr : List (Jobs × Act)) : List Nat :=
  tr.flatMap fun
    | (s, .commit t) =>
      match s.opened.find? t with
      | some o => if o.op.IsClaim then o.held else []
      | none => []
    | _ => []

theorem history_snoc (id : Nat) (tr : List (Jobs × Act)) (t u : Jobs) (a : Act) :
    history id (tr ++ [(t, a)]) u = history id tr t ++ (u.rows.find? id).toList := by
  unfold history
  rw [List.map_append, List.filterMap_append]
  simp only [List.map_cons, List.map_nil, List.filterMap_cons, List.filterMap_nil]
  cases u.rows.find? id <;> rfl

/-- Removing repetitions goes on at the end of the list. -/
theorem destutter_concat {α : Type} [DecidableEq α] (l : List α) (x : α) :
    (l ++ [x]).destutter (· ≠ ·) =
      if l.getLast? = some x then l.destutter (· ≠ ·) else l.destutter (· ≠ ·) ++ [x] := by
  cases l with
  | nil => simp
  | cons a l =>
    rw [List.cons_append, List.destutter_cons', List.destutter_cons']
    induction l generalizing a with
    | nil =>
      by_cases h : a = x
      · simp [h]
      · simp [h]
    | cons b l ih =>
      rw [List.cons_append, List.destutter'_cons, List.destutter'_cons, List.getLast?_cons_cons]
      by_cases h : a = b
      · subst h
        simp only [ne_eq, not_true_eq_false, if_false]
        exact ih a
      · simp only [ne_eq, h, not_false_eq_true, if_true]
        rw [ih b]
        split <;> rfl

/-- What is known of job `id` after a run. -/
structure Lived (id : Nat) (tr : List (Jobs × Act)) (t : Jobs) : Prop where
  last : (history id tr t).getLast? = t.rows.find? id
  ok : ∀ j ∈ history id tr t, JobOk j
  kept : (history id tr t).Pairwise JobKept
  status : ((history id tr t).map (·.status)).destutter (· ≠ ·) =
    (t.rows.find? id).elim [] fun j => path j.status

theorem lived_init (id : Nat) : Lived id [] init := by
  have h : history id [] init = [] := rfl
  have hf : init.rows.find? id = none := rfl
  exact ⟨by rw [h, hf]; rfl, by rw [h]; exact fun _ hj => absurd hj List.not_mem_nil,
    by rw [h]; exact List.Pairwise.nil, by rw [h, hf]; rfl⟩

/-- A new version of a job extends its history. -/
theorem Lived.extend {id : Nat} {tr : List (Jobs × Act)} {t u : Jobs} {a : Act} (hl : Lived id tr t)
    {j j' : ProcessingData} (hj : t.rows.find? id = some j) (hj' : u.rows.find? id = some j')
    (hs : JobStep j j') : Lived id (tr ++ [(t, a)]) u := by
  have hjmem : j ∈ history id tr t := List.mem_of_getLast? (hl.last.trans hj)
  have hok := hl.ok j hjmem
  have hhist := history_snoc id tr t u a
  rw [hj', Option.toList_some] at hhist
  have hstatus := hl.status
  rw [hj, Option.elim_some] at hstatus
  have hlaststatus : ((history id tr t).map (·.status)).getLast? = some j.status := by
    rw [List.getLast?_map, hl.last, hj]
    rfl
  refine ⟨?_, ?_, ?_, ?_⟩
  · rw [hhist, hj', List.getLast?_concat]
  · rw [hhist]
    intro x hx
    rcases List.mem_append.mp hx with hx | hx
    · exact hl.ok x hx
    · rw [List.mem_singleton.mp hx]
      exact hs.ok hok
  · rw [hhist]
    refine List.pairwise_append.mpr ⟨hl.kept, List.pairwise_singleton _ _, fun x hx y hy => ?_⟩
    rw [List.mem_singleton.mp hy]
    -- every earlier version leads to `j`, and `j` to the new one
    obtain ⟨l, hl'⟩ : ∃ l, history id tr t = l ++ [j] :=
      List.getLast?_eq_some_iff.mp (hl.last.trans hj)
    have hkept := hl.kept
    rw [hl'] at hx hkept
    rcases List.mem_append.mp hx with hx | hx
    · exact ((List.pairwise_append.mp hkept).2.2 x hx j (List.mem_singleton_self j)).trans
        (hs.kept hok)
    · rw [List.mem_singleton.mp hx]
      exact hs.kept hok
  · rw [hhist, hj', List.map_append, List.map_singleton, destutter_concat, hlaststatus, hstatus]
    simp only [Option.elim_some]
    cases hs with
    | same => rw [if_pos rfl]
    | claimed hp w now => rw [hp]; rfl
    | finished hi status now ht =>
      rw [hi]
      rcases ht with rfl | rfl <;> rfl

theorem lived_step {id : Nat} {tr : List (Jobs × Act)} {t u : Jobs} {a : Act} (hi : Inv t)
    (hl : Lived id tr t) (h : Step t a u) : Lived id (tr ++ [(t, a)]) u := by
  obtain ⟨hsends, hstep⟩ := step_sends h
  cases hj : t.rows.find? id with
  | some j =>
    obtain ⟨hm, hk⟩ := Table.find?_eq_some.mp hj
    obtain ⟨j', hj', hrow⟩ := row_next hi.locks hstep hm
    exact hl.extend hj (Table.find?_eq_some.mpr ⟨hj', hrow.key_eq.trans hk⟩)
      (jobStep_of_rowStep hi hrow)
  | none =>
    have hnil : history id tr t = [] := List.getLast?_eq_none_iff.mp (hl.last.trans hj)
    have hhist := history_snoc id tr t u a
    rw [hnil, List.nil_append] at hhist
    cases hj' : u.rows.find? id with
    | none =>
      rw [hj', Option.toList_none] at hhist
      exact ⟨by rw [hhist, hj']; rfl, by rw [hhist]; exact fun _ hx => absurd hx List.not_mem_nil,
        by rw [hhist]; exact List.Pairwise.nil, by rw [hhist, hj']; rfl⟩
    | some j =>
      rw [hj', Option.toList_some] at hhist
      obtain ⟨hm, hk⟩ := Table.find?_eq_some.mp hj'
      rcases row_origin hi.locks hstep hm with ⟨rfl, -⟩ | ⟨r, hr, hrow⟩
      · obtain ⟨hp, hw⟩ := hsends
        refine ⟨by rw [hhist, hj']; rfl, ?_, by rw [hhist]; exact List.pairwise_singleton _ _, ?_⟩
        · rw [hhist]
          intro x hx
          rw [List.mem_singleton.mp hx]
          exact ⟨fun _ => hp, fun _ => hw⟩
        · rw [hhist, hj', List.map_singleton, List.destutter_singleton, Option.elim_some, hp]
          rfl
      · exact absurd (hrow.key_eq.symm.trans hk) (Table.find?_eq_none.mp hj r hr)

theorem inv_run {tr : List (Jobs × Act)} {t : Jobs} (h : Run Step init tr t) : Inv t :=
  h.invariant (fun _ _ _ hi hs => inv_step hi hs) inv_init

theorem lived_run {tr : List (Jobs × Act)} {t : Jobs} (h : Run Step init tr t) (id : Nat) :
    Lived id tr t :=
  h.invariant_trace (I := fun tr t => Lived id tr t) (lived_init id)
    fun _ _ _ _ hr hl hs => lived_step (inv_run hr) hl hs

/-! ## What the claims return -/

/-- The returned ids are distinct, and their jobs are no longer pending. -/
def Returned (tr : List (Jobs × Act)) (t : Jobs) : Prop :=
  (returned tr).Nodup ∧ ∀ id ∈ returned tr, ∃ j ∈ t.rows, j.id = id ∧ j.status ≠ .pending

/-- A job that is not pending is not pending after a step. -/
theorem not_pending_step {s s' : Jobs} {a : Act} (hi : Inv s)
    (h : ReadCommitted.step sem s a = some s') {j : ProcessingData} (hj : j ∈ s.rows)
    (hp : j.status ≠ .pending) : ∃ j' ∈ s'.rows, j'.id = j.id ∧ j'.status ≠ .pending := by
  obtain ⟨j', hj', hrow⟩ := row_next hi.locks h hj
  refine ⟨j', hj', hrow.key_eq, ?_⟩
  cases jobStep_of_rowStep hi hrow with
  | same => exact hp
  | claimed hp' w now => exact absurd hp' hp
  | finished hi status now ht => rcases ht with rfl | rfl <;> simp [Db.statusSet]

/-- The rows a committing claim returns were pending and are now indexing. -/
theorem commit_claim {s s' : Jobs} {o : Open Stmt Nat} (hi : Inv s) (ho : o ∈ s.opened)
    (hc : o.op.IsClaim) (h : ReadCommitted.step sem s (.commit o.tid) = some s') {k : Nat}
    (hk : k ∈ o.held) :
    (∃ j ∈ s.rows, j.id = k ∧ j.status = .pending) ∧
      ∃ j' ∈ s'.rows, j'.id = k ∧ j'.status = .indexing := by
  obtain ⟨j, hj, rfl, hcond⟩ := hi.locks.cond o ho k hk
  obtain ⟨t, op, todo, held⟩ := o
  cases op with
  | update jobId status now blocked => exact hc.elim
  | claim workerId now active =>
    simp only [sem, Bool.and_eq_true, decide_eq_true_eq] at hcond
    refine ⟨⟨j, hj, rfl, hcond.1⟩, ?_⟩
    obtain ⟨j', hj', hrow⟩ := row_next hi.locks h hj
    refine ⟨j', hj', hrow.key_eq, ?_⟩
    rcases hrow with ⟨rfl, hno⟩ | ⟨o', ho', he, hk', -, hset⟩
    · exact absurd hk (hno _ ho rfl)
    · obtain rfl := Table.eq_of_key ho' ho (Label.commit.inj he).symm
      obtain ⟨w, -, rfl⟩ := Db.claimSet_eq_some hset
      rfl

theorem returned_step {tr : List (Jobs × Act)} {t u : Jobs} {a : Act} (hi : Inv t)
    (hr : Returned tr t) (h : Step t a u) : Returned (tr ++ [(t, a)]) u := by
  obtain ⟨-, hstep⟩ := step_sends h
  have hkeep : ∀ id ∈ returned tr, ∃ j ∈ u.rows, j.id = id ∧ j.status ≠ .pending := by
    intro id hid
    obtain ⟨j, hj, rfl, hp⟩ := hr.2 id hid
    exact not_pending_step hi hstep hj hp
  have hsame : returned [(t, a)] = [] → Returned (tr ++ [(t, a)]) u := by
    intro hnil
    unfold Returned returned at *
    rw [List.flatMap_append, hnil, List.append_nil]
    exact ⟨hr.1, hkeep⟩
  cases a with
  | insert r => exact hsame rfl
  | begin t o todo => exact hsame rfl
  | visit t => exact hsame rfl
  | abort t => exact hsame rfl
  | commit x =>
    obtain ⟨o, ho, rfl, -, -⟩ := commit_inv hstep
    have hfind : t.opened.find? o.tid = some o := Table.find?_of_mem ho
    by_cases hc : o.op.IsClaim
    · have hret : returned [(t, Label.commit o.tid)] = o.held := by
        simp [returned, hfind, hc]
      have hsplit : returned (tr ++ [(t, Label.commit o.tid)]) = returned tr ++ o.held := by
        rw [← hret]
        exact List.flatMap_append
      unfold Returned
      rw [hsplit]
      constructor
      · refine hr.1.append ?_ fun k hk hk' => ?_
        · rcases claim_held hi ho hc with he | ⟨k, he⟩
          · rw [he]
            exact List.nodup_nil
          · rw [he]
            exact List.nodup_singleton k
        · obtain ⟨j, hj, rfl, hp⟩ := hr.2 k hk
          obtain ⟨⟨j', hj', he, hp'⟩, -⟩ := commit_claim hi ho hc hstep hk'
          rw [Table.eq_of_key hj hj' he.symm] at hp
          exact hp hp'
      · intro k hk
        rcases List.mem_append.mp hk with hk | hk
        · exact hkeep k hk
        · obtain ⟨-, j', hj', he, hs⟩ := commit_claim hi ho hc hstep hk
          exact ⟨j', hj', he, by rw [hs]; simp⟩
    · exact hsame (by simp [returned, hfind, hc])

theorem returned_run {tr : List (Jobs × Act)} {t : Jobs} (h : Run Step init tr t) :
    Returned tr t :=
  h.invariant_trace ⟨List.nodup_nil, fun _ hid => absurd hid List.not_mem_nil⟩
    fun _ _ _ _ hr hret hs => returned_step (inv_run hr) hret hs

/-- **The life cycle of a job**, over every run: its statuses are pending, indexing and one
terminal status, up to the point it has reached; no job is returned by two claims; a terminal
status, the worker once there is one, and the columns of the creation stay; `worker_id` is NULL
exactly while the job is pending. -/
theorem job_life_cycle {tr : List (Jobs × Act)} {t : Jobs} (h : Run Step init tr t) :
    (∀ id, ∃ terminal, (terminal = Status.ready ∨ terminal = Status.error) ∧
      ((history id tr t).map (·.status)).destutter (· ≠ ·) <+:
        [Status.pending, Status.indexing, terminal]) ∧
    (returned tr).Nodup ∧
    (∀ id, (history id tr t).Pairwise fun j j' =>
      (j.status = .ready ∨ j.status = .error → j'.status = j.status) ∧
      (∀ w, j.workerId = some w → j'.workerId = some w) ∧
      j'.address = j.address ∧ j'.createdAt = j.createdAt ∧ j'.txLimit = j.txLimit ∧
      j'.requestedHours = j.requestedHours) ∧
    ∀ id, ∀ j ∈ history id tr t, j.workerId = none ↔ j.status = .pending := by
  refine ⟨fun id => ?_, (returned_run h).1, fun id => ?_, fun id => (lived_run h id).ok⟩
  · rw [(lived_run h id).status]
    cases t.rows.find? id with
    | none => exact ⟨.ready, Or.inl rfl, List.nil_prefix⟩
    | some j =>
      simp only [Option.elim_some]
      cases j.status with
      | pending => exact ⟨.ready, Or.inl rfl, ⟨[.indexing, .ready], rfl⟩⟩
      | indexing => exact ⟨.ready, Or.inl rfl, ⟨[.ready], rfl⟩⟩
      | ready => exact ⟨.ready, Or.inl rfl, List.prefix_refl _⟩
      | error => exact ⟨.error, Or.inr rfl, List.prefix_refl _⟩
  · refine (lived_run h id).kept.imp fun hk => ?_
    exact ⟨hk.2.2, hk.2.1, hk.1.2.1, hk.1.2.2.1, hk.1.2.2.2.1, hk.1.2.2.2.2⟩

/-- Jobs 1 and 3 for address A, job 2 for B. Two claims overlap: the second passes over job 1,
which the first has locked, and takes job 2. While job 1 is indexing, a third claim finds nothing.
Job 1 is marked ready; then a claim takes job 3. -/
def lifeActs : List Act :=
  [.insert ⟨1, "A", .pending, 0, 0, none, 10, 1⟩, .insert ⟨2, "B", .pending, 1, 1, none, 10, 1⟩,
    .insert ⟨3, "A", .pending, 2, 2, none, 10, 1⟩,
    .begin 1 (.claim 1 5 []) [1, 2, 3], .visit 1, .begin 2 (.claim 2 5 []) [1, 2, 3], .visit 2,
    .visit 2, .commit 1, .commit 2,
    .begin 3 (.claim 3 6 ["A", "B"]) [], .commit 3,
    .begin 4 (.update 1 .ready 7 false) [1], .visit 4, .commit 4,
    .begin 5 (.claim 3 8 ["B"]) [3], .visit 5, .commit 5]

theorem job_life_cycle_run : ∃ tr t, Run Step init tr t ∧ tr.map Prod.snd = lifeActs ∧
    (∀ id, ∃ terminal, (terminal = Status.ready ∨ terminal = Status.error) ∧
      ((history id tr t).map (·.status)).destutter (· ≠ ·) <+:
        [Status.pending, Status.indexing, terminal]) ∧
    (returned tr).Nodup ∧ returned tr = [1, 2, 3] ∧
    t.rows.rows.map (·.status) = [.ready, .indexing, .indexing] := by
  obtain ⟨tr, t, hr, hl, htest⟩ := exists_run_of_exec step init lifeActs
    (fun tr t => returned tr = [1, 2, 3] ∧
      t.rows.rows.map (·.status) = [.ready, .indexing, .indexing]) (by decide)
  exact ⟨tr, t, hr, hl, (job_life_cycle hr).1, (job_life_cycle hr).2.1, of_decide_eq_true htest⟩

/-! ## At most one active job per address -/

/-- No two jobs of one address are indexing. -/
def OneActive (s : Jobs) : Prop :=
  ∀ j ∈ s.rows, ∀ j' ∈ s.rows, j.status = .indexing → j'.status = .indexing →
    j.address = j'.address → j = j'

/-- Claim `o` has locked a job of the address. -/
def Holds (s : Jobs) (o : Open Stmt Nat) (address : String) : Prop :=
  o.op.IsClaim ∧ ∃ j ∈ s.rows, j.id ∈ o.held ∧ j.address = address

/-- A claim in progress other than `t` has locked a job of the address. -/
def Held (s : Jobs) (t : Nat) (address : String) : Prop :=
  ∃ o ∈ s.opened, o.tid ≠ t ∧ Holds s o address

/-- A claim that had locked a job of the address has committed since `t` took its snapshot. -/
def Taken (tr : List (Jobs × Act)) (t : Nat) (address : String) : Prop :=
  ∃ x ∈ sinceBegin t tr, ∃ o ∈ x.1.opened, x.2 = .commit o.tid ∧ Holds x.1 o address

/-- The next step is not a claim locking a row of an address of which a claim that overlaps it,
in progress or committed since, has a job. -/
def Unraced (tr : List (Jobs × Act)) (s : Jobs) : Act → Prop
  | .visit t => ∀ o ∈ s.opened, o.tid = t → o.op.IsClaim → ∀ j ∈ s.rows,
      o.todo.head? = some j.id → sem.cond o.op j = true → lockedByOther s t j.id = false →
      ¬Held s t j.address ∧ ¬Taken tr t j.address
  | _ => True

/-- Every step of a run, after the steps before it. -/
def RaceFree (tr : List (Jobs × Act)) : Prop :=
  ∀ i (h : i < tr.length), Unraced (tr.take i) tr[i].1 tr[i].2

instance (s : Jobs) : Decidable (OneActive s) := by
  unfold OneActive
  infer_instance

instance (s : Jobs) (o : Open Stmt Nat) (address : String) : Decidable (Holds s o address) := by
  unfold Holds
  infer_instance

instance (s : Jobs) (t : Nat) (address : String) : Decidable (Held s t address) := by
  unfold Held
  infer_instance

instance (tr : List (Jobs × Act)) (t : Nat) (address : String) :
    Decidable (Taken tr t address) := by
  unfold Taken
  infer_instance

instance (tr : List (Jobs × Act)) (s : Jobs) (a : Act) : Decidable (Unraced tr s a) := by
  unfold Unraced
  split <;> infer_instance

instance (tr : List (Jobs × Act)) : Decidable (RaceFree tr) := by
  unfold RaceFree
  infer_instance

theorem RaceFree.of_concat {tr : List (Jobs × Act)} {x : Jobs × Act} (h : RaceFree (tr ++ [x])) :
    RaceFree tr ∧ Unraced tr x.1 x.2 := by
  constructor
  · intro i hi
    have := h i (by rw [List.length_append]; omega)
    rwa [List.take_append_of_le_length hi.le, List.getElem_append_left hi] at this
  · have := h tr.length (by simp)
    rwa [List.take_left, List.getElem_concat_length rfl] at this

/-- The job of address `address` is free: no job of the address is indexing in the newest
committed rows, and no claim other than `t` has one locked. -/
def AddressFree (s : Jobs) (t : Nat) (address : String) : Prop :=
  (∀ j ∈ s.rows, j.address = address → j.status ≠ .indexing) ∧
    ∀ o ∈ s.opened, o.tid ≠ t → o.op.IsClaim → ∀ j ∈ s.rows, j.id ∈ o.held → j.address ≠ address

/-- A row of a later state that is indexing was so before, or is returned by a committing claim. -/
theorem indexing_origin {s s' : Jobs} {a : Act} (hi : Inv s) (hsends : Sends s a)
    (h : ReadCommitted.step sem s a = some s') {j' : ProcessingData} (hj' : j' ∈ s'.rows)
    (hs : j'.status = .indexing) :
    j' ∈ s.rows ∨ ∃ o ∈ s.opened, a = .commit o.tid ∧ o.op.IsClaim ∧ ∃ j ∈ s.rows, j.id ∈ o.held ∧
      j.id = j'.id ∧ j.address = j'.address := by
  rcases row_origin hi.locks h hj' with ⟨rfl, -⟩ | ⟨j, hj, hrow⟩
  · rw [hsends.1] at hs
    exact absurd hs (by simp)
  · rcases hrow with ⟨rfl, -⟩ | ⟨⟨t, op, todo, held⟩, ho, ha, hk, -, hset⟩
    · exact Or.inl hj
    · cases op with
      | claim workerId now active =>
        obtain ⟨w, -, rfl⟩ := Db.claimSet_eq_some hset
        exact Or.inr ⟨_, ho, ha, trivial, j, hj, hk, rfl, rfl⟩
      | update jobId status now blocked =>
        obtain rfl := Option.some.inj hset
        have ht := hi.terminal _ ho _ _ _ _ rfl
        simp only [Db.statusSet] at hs
        rw [hs] at ht
        exact absurd ht (by simp)

/-- **What `NOT EXISTS` guards against**: the address of an indexing job is in the `active` of
every claim in progress, but for jobs that other claims took since its snapshot. -/
def Seen (tr : List (Jobs × Act)) (s : Jobs) : Prop :=
  ∀ o ∈ s.opened, ∀ workerId now active, o.op = .claim workerId now active → ∀ j ∈ s.rows,
    j.status = .indexing → j.address ∈ active ∨ Taken tr o.tid j.address

theorem Taken.concat {tr : List (Jobs × Act)} {t : Nat} {address : String} {x : Jobs × Act}
    (h : Taken tr t address) (hx : x.2.begins t = false) : Taken (tr ++ [x]) t address := by
  obtain ⟨y, hy, hcommit⟩ := h
  refine ⟨y, ?_, hcommit⟩
  rw [sinceBegin_concat hx]
  exact List.mem_append_left _ hy

theorem seen_step {tr : List (Jobs × Act)} {s s' : Jobs} {a : Act} (hi : Inv s) (hseen : Seen tr s)
    (h : Step s a s') : Seen (tr ++ [(s, a)]) s' := by
  obtain ⟨hsends, hstep⟩ := step_sends h
  intro o' ho' workerId now active hop j' hj' hs
  rcases opened_origin hstep ho' with ⟨todo, rfl⟩ | ⟨hbegins, o, ho, ht, he⟩
  · -- the claim starts: its sub-select reads the rows of now
    obtain ⟨-, -, rfl⟩ := begin_inv hstep
    rw [hop] at hsends
    rw [show active = activeAddresses s.rows from hsends]
    refine Or.inl (List.mem_map.mpr ⟨j', List.mem_filter.mpr ⟨hj', ?_⟩, rfl⟩)
    exact decide_eq_true hs
  · rcases indexing_origin hi hsends hstep hj' hs with
      hj | ⟨p, hp, rfl, hpc, j, hj, hjk, -, hadd⟩
    · rcases hseen o ho workerId now active (he.trans hop) j' hj hs with hmem | htaken
      · exact Or.inl hmem
      · exact Or.inr ((ht ▸ htaken).concat hbegins)
    · -- another claim commits
      refine Or.inr ⟨(s, .commit p.tid), ?_, p, hp, rfl, hpc, j, hj, hjk, hadd⟩
      rw [sinceBegin_concat hbegins]
      exact List.mem_append_right _ (List.mem_singleton_self _)

theorem seen_run {tr : List (Jobs × Act)} {t : Jobs} (h : Run Step init tr t) : Seen tr t :=
  h.invariant_trace (fun o ho => absurd ho (Table.not_mem_empty o))
    fun _ _ _ _ hr hseen hs => seen_step (inv_run hr) hseen hs

/-- A claim that meets no overlapping one of the address locks a row whose address is free: the
guard has excluded all other jobs of the address. -/
theorem Unraced.addressFree {tr : List (Jobs × Act)} {s : Jobs} {o : Open Stmt Nat}
    (hok : Unraced tr s (.visit o.tid)) (hseen : Seen tr s) (ho : o ∈ s.opened)
    (hc : o.op.IsClaim) {j : ProcessingData} (hj : j ∈ s.rows) (htodo : o.todo.head? = some j.id)
    (hcond : sem.cond o.op j = true) (hlock : lockedByOther s o.tid j.id = false) :
    AddressFree s o.tid j.address := by
  obtain ⟨hheld, htaken⟩ := hok o ho rfl hc j hj htodo hcond hlock
  refine ⟨fun x hx ha hs => ?_, fun p hp hpt hpc x hx hxk ha =>
    hheld ⟨p, hp, hpt, hpc, x, hx, hxk, ha⟩⟩
  cases hop : o.op with
  | claim workerId now active =>
    rw [hop] at hcond
    simp only [sem, Bool.and_eq_true, Bool.not_eq_true', decide_eq_false_iff_not] at hcond
    rcases hseen o ho workerId now active hop x hx hs with hmem | hmem
    · exact hcond.2 (ha ▸ hmem)
    · exact htaken (ha ▸ hmem)
  | update jobId status now blocked =>
    rw [hop] at hc
    exact hc

/-- What race-free runs preserve: besides `OneActive`, the jobs that claims hold have free
addresses, pairwise distinct ones. -/
structure NoRace (s : Jobs) : Prop where
  one : OneActive s
  free : ∀ o ∈ s.opened, o.op.IsClaim → ∀ j ∈ s.rows, j.id ∈ o.held →
    AddressFree s o.tid j.address

theorem noRace_init : NoRace init :=
  ⟨fun j hj => absurd hj (Table.not_mem_empty j), fun o ho => absurd ho (Table.not_mem_empty o)⟩

/-- Rows and claims as before, or fewer locks. -/
theorem NoRace.of_sub {s s' : Jobs} (hn : NoRace s) (hrows : s'.rows = s.rows)
    (hheld : ∀ o' ∈ s'.opened, o'.op.IsClaim → ∀ k ∈ o'.held,
      ∃ o ∈ s.opened, o.tid = o'.tid ∧ o.op.IsClaim ∧ k ∈ o.held) : NoRace s' := by
  refine ⟨?_, fun o' ho' hc j hj hk => ?_⟩
  · intro j hj j' hj'
    rw [hrows] at hj hj'
    exact hn.one j hj j' hj'
  · rw [hrows] at hj
    obtain ⟨o, ho, ht, hco, hko⟩ := hheld o' ho' hc _ hk
    have hfree := hn.free o ho hco j hj hko
    refine ⟨fun x hx => ?_, fun p' hp' hpt hpc x hx hxk => ?_⟩
    · rw [hrows] at hx
      exact hfree.1 x hx
    · rw [hrows] at hx
      obtain ⟨p, hp, hpt', hpc', hpk⟩ := hheld p' hp' hpc _ hxk
      exact hfree.2 p hp (by rw [hpt', ht]; exact hpt) hpc' x hx hpk

theorem noRace_commit {s s' : Jobs} {o : Open Stmt Nat} (hi : Inv s) (hn : NoRace s)
    (ho : o ∈ s.opened) (h : ReadCommitted.step sem s (.commit o.tid) = some s') : NoRace s' := by
  have horigin : ∀ j' ∈ s'.rows, j'.status = .indexing → _ := fun _ hj' hs =>
    indexing_origin hi (a := .commit o.tid) trivial h hj' hs
  obtain ⟨x, hx, hxt, -, hs'⟩ := commit_inv h
  obtain rfl := Table.eq_of_key hx ho hxt
  have hopened : ∀ p ∈ s'.opened, p ∈ s.opened ∧ p.tid ≠ x.tid := fun p hp => by
    rw [hs'] at hp
    exact Table.mem_erase.mp hp
  have hone : x.op.IsClaim → ∀ k ∈ x.held, ∀ k' ∈ x.held, k = k' := by
    intro hc k hk k' hk'
    rcases claim_held hi hx hc with he | ⟨y, he⟩
    · rw [he] at hk
      exact absurd hk List.not_mem_nil
    · rw [he] at hk hk'
      rw [List.mem_singleton.mp hk, List.mem_singleton.mp hk']
  constructor
  · intro j' hj' i' hi' hjs his hadd
    rcases horigin j' hj' hjs with hj | ⟨p, hp, hpe, hpc, j, hj, hjk, hjid, hja⟩ <;>
      rcases horigin i' hi' his with hi0 | ⟨q, hq, hqe, hqc, i, hi0, hik, hiid, hia⟩
    · exact hn.one j' hj i' hi0 hjs his hadd
    · exact absurd hjs ((hn.free q hq hqc i hi0 hik).1 j' hj (hadd.trans hia.symm))
    · exact absurd his ((hn.free p hp hpc j hj hjk).1 i' hi0 (hadd.symm.trans hja.symm))
    · obtain rfl := Table.eq_of_key hp hx (Label.commit.inj hpe).symm
      obtain rfl := Table.eq_of_key hq hx (Label.commit.inj hqe).symm
      exact Table.eq_of_key hj' hi'
        (hjid.symm.trans ((hone hpc _ hjk _ hik).trans hiid))
  · intro p hp hpc j' hj' hjk
    obtain ⟨hp0, hpt⟩ := hopened p hp
    -- the row `p` holds did not change: its key is locked by `p`, not by the committing statement
    have hsame : ∀ y' ∈ s'.rows, ∃ y ∈ s.rows, y.id = y'.id ∧ y.address = y'.address := by
      intro y' hy'
      rcases row_origin hi.locks h hy' with ⟨hne, -⟩ | ⟨y, hy, hrow⟩
      · exact absurd hne (by simp)
      · refine ⟨y, hy, hrow.key_eq.symm, ?_⟩
        cases jobStep_of_rowStep hi hrow <;> rfl
    obtain ⟨j, hj, hid, hadd⟩ := hsame j' hj'
    have hfree := hn.free p hp0 hpc j hj (hid ▸ hjk)
    rw [hadd] at hfree
    refine ⟨fun y' hy' ha hs => ?_, fun q hq hqt hqc y' hy' hyk ha => ?_⟩
    · rcases horigin y' hy' hs with hy | ⟨q, hq, hqe, hqc, y, hy, hyk, hyid, hya⟩
      · exact hfree.1 y' hy ha hs
      · obtain rfl := Table.eq_of_key hq hx (Label.commit.inj hqe).symm
        exact hfree.2 q hq (Ne.symm hpt) hqc y hy hyk (hya.trans ha)
    · obtain ⟨y, hy, hyid, hya⟩ := hsame y' hy'
      exact hfree.2 q (hopened q hq).1 hqt hqc y hy (hyid ▸ hyk) (hya.trans ha)

theorem noRace_step {tr : List (Jobs × Act)} {s s' : Jobs} {a : Act} (hi : Inv s)
    (hseen : Seen tr s) (hn : NoRace s) (h : Step s a s') (hok : Unraced tr s a) : NoRace s' := by
  obtain ⟨hsends, hstep⟩ := step_sends h
  cases a with
  | insert r =>
    obtain ⟨hfresh, rfl⟩ := insert_inv hstep
    have hnew : ∀ j, j ∈ s.rows.insertIgnore r → j.status = .indexing → j ∈ s.rows := by
      intro j hj hs
      rcases Table.mem_insertIgnore.mp hj with h | ⟨rfl, -⟩
      · exact h
      · rw [hsends.1] at hs
        exact absurd hs (by simp)
    -- a new row is held by nobody: every held key has a row
    have hheld : ∀ o ∈ s.opened, ∀ j, j ∈ s.rows.insertIgnore r → j.id ∈ o.held → j ∈ s.rows := by
      intro o ho j hj hk
      rcases Table.mem_insertIgnore.mp hj with h | ⟨rfl, -⟩
      · exact h
      · obtain ⟨x, hx, hxk, -⟩ := hi.locks.cond o ho _ hk
        exact absurd (hxk ▸ Table.key_mem_keys hx) hfresh
    refine ⟨fun j hj j' hj' hs hs' => hn.one j (hnew j hj hs) j' (hnew j' hj' hs') hs hs',
      fun o ho hc j hj hk => ?_⟩
    have hfree := hn.free o ho hc j (hheld o ho j hj hk) hk
    exact ⟨fun x hx ha hs => hfree.1 x (hnew x hx hs) ha hs, fun p hp hpt hpc x hx hxk =>
      hfree.2 p hp hpt hpc x (hheld p hp x hx hxk) hxk⟩
  | begin t op todo =>
    obtain ⟨-, -, rfl⟩ := begin_inv hstep
    refine hn.of_sub rfl fun o' ho' hc k hk => ?_
    rcases mem_put.mp ho' with rfl | ⟨ho', -⟩
    · exact absurd hk List.not_mem_nil
    · exact ⟨o', ho', rfl, hc, hk⟩
  | visit t =>
    obtain ⟨o, k, rest, ho, rfl, htodo, -, rfl | ⟨r, hr, rfl, hcond, hlock, rfl⟩⟩ := visit_inv hstep
    · refine hn.of_sub rfl fun o' ho' hc k' hk => ?_
      rcases mem_put.mp ho' with rfl | ⟨ho', -⟩
      · exact ⟨o, ho, rfl, hc, hk⟩
      · exact ⟨o', ho', rfl, hc, hk⟩
    · by_cases hc : o.op.IsClaim
      · have hfree := hok.addressFree hseen ho hc hr (by rw [htodo]; rfl) hcond hlock
        refine ⟨hn.one, fun p hp hpc j hj hjk => ?_⟩
        rcases mem_put.mp hp with rfl | ⟨hp0, hpt⟩
        · have hj' : AddressFree s o.tid j.address := by
            rcases List.mem_cons.mp hjk with he | hjk
            · rw [Table.eq_of_key hj hr he]
              exact hfree
            · exact hn.free o ho hc j hj hjk
          refine ⟨hj'.1, fun q hq hqt hqc x hx hxk => ?_⟩
          rcases mem_put.mp hq with rfl | ⟨hq, -⟩
          · exact absurd rfl hqt
          · exact hj'.2 q hq hqt hqc x hx hxk
        · have hj' := hn.free p hp0 hpc j hj hjk
          refine ⟨hj'.1, fun q hq hqt hqc x hx hxk ha => ?_⟩
          rcases mem_put.mp hq with rfl | ⟨hq, -⟩
          · rcases List.mem_cons.mp hxk with he | hxk
            · obtain rfl := Table.eq_of_key hx hr he
              exact hfree.2 p hp0 hpt hpc j hj hjk ha.symm
            · exact hj'.2 o ho hqt hc x hx hxk ha
          · exact hj'.2 q hq hqt hqc x hx hxk ha
      · refine hn.of_sub rfl fun o' ho' hc' k' hk => ?_
        rcases mem_put.mp ho' with rfl | ⟨ho', -⟩
        · exact absurd hc' hc
        · exact ⟨o', ho', rfl, hc', hk⟩
  | commit t =>
    obtain ⟨o, ho, rfl, -, -⟩ := commit_inv hstep
    exact noRace_commit hi hn ho hstep
  | abort t =>
    obtain rfl := abort_inv hstep
    exact hn.of_sub rfl fun o' ho' hc k hk =>
      ⟨o', (Table.mem_erase.mp ho').1, rfl, hc, hk⟩

/-- **At most one active job per address, in race-free runs**: if no claim ever locks a row of an
address of which another claim, in progress or committed since its snapshot, has taken a job, no
two jobs of one address are indexing at once. -/
theorem oneActive_of_raceFree {tr : List (Jobs × Act)} {t : Jobs} (h : Run Step init tr t)
    (hok : RaceFree tr) : OneActive t := by
  have hn : RaceFree tr → NoRace t :=
    h.invariant_trace (I := fun tr t => RaceFree tr → NoRace t) (fun _ => noRace_init)
      fun _ _ _ _ hr ih hs hok => noRace_step (inv_run hr) (seen_run hr) (ih hok.of_concat.1) hs
        hok.of_concat.2
  exact (hn hok).one

theorem oneActive_of_raceFree_run : ∃ tr t, Run Step init tr t ∧ tr.map Prod.snd = lifeActs ∧
    t.rows.rows.map (fun j => (j.address, j.status)) =
      [("A", .ready), ("B", .indexing), ("A", .indexing)] ∧ OneActive t := by
  obtain ⟨tr, t, hr, hl, htest⟩ := exists_run_of_exec step init lifeActs
    (fun tr t => decide (RaceFree tr) && t.rows.rows.map (fun j => (j.address, j.status)) =
      [("A", .ready), ("B", .indexing), ("A", .indexing)]) (by decide)
  rw [Bool.and_eq_true, decide_eq_true_eq, decide_eq_true_eq] at htest
  exact ⟨tr, t, hr, hl, htest.2, oneActive_of_raceFree hr htest.1⟩

/-- Two claims overlap, for two jobs of one address: the second claim's snapshot shows no indexing
job, its first row is skipped as locked, and it takes the second. -/
def oneAddress : List Act :=
  [.insert ⟨1, "A", .pending, 0, 0, none, 10, 1⟩, .insert ⟨2, "A", .pending, 1, 1, none, 10, 1⟩,
    .begin 1 (.claim 1 5 []) [1, 2], .visit 1, .begin 2 (.claim 2 5 []) [1, 2], .visit 2, .visit 2,
    .commit 1, .commit 2]

/-- Overlapping claims can index two jobs of one address at once. -/
theorem not_oneActive : ¬∀ tr t, Run Step init tr t → OneActive t := by
  intro h
  obtain ⟨tr, t, hr, -, ht⟩ := exists_run_of_exec step init oneAddress
    (fun _ t => decide (¬OneActive t)) (by decide)
  exact of_decide_eq_true ht (h tr t hr)

end OnChainEventIndexer.JobClaims
