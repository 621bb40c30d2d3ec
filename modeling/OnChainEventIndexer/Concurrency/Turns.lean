import OnChainEventIndexer.Concurrency.JobClaims
import OnChainEventIndexer.Db.Queue
import OnChainEventIndexer.Lib.CommitOrder
import Mathlib.Data.List.Sort

/-!
# Claims that do not overlap

The jobs under READ COMMITTED (`Concurrency/JobClaims.lean`) where a claim overlaps no other one.
Jobs are created and finished while it is open, so at its commit it may take a job that is no longer
the next one.

* **`claims_as_at_start`**: it takes the job that `claim_pending_job` executed alone at its start
  takes, whatever other claims have done before.
* **`claims_in_turn`**: where no two claims overlap and every job is created later than those before
  it (`InTurn`), the jobs of an address are claimed in the order of their creation, each once.

Both come from what is known of an open claim (`Turn`): the rows that it still considers, with the one
it holds, are the first of those that satisfy its clause (`candidates`).
-/

namespace OnChainEventIndexer.JobClaims

open Keyed ReadCommitted Lts

/-- No two claims overlap, and every job is created later than those before it. -/
def InTurn (s : Jobs) : Act → Prop
  | .insert j => ∀ x ∈ s.rows, x.createdAt < j.createdAt
  | .begin _ (.claim _ _ _) _ => ∀ x ∈ s.opened, ¬x.op.IsClaim
  | _ => True

instance (s : Jobs) (a : Act) : Decidable (InTurn s a) :=
  match a with
  | .insert j => inferInstanceAs (Decidable (∀ x ∈ s.rows, x.createdAt < j.createdAt))
  | .begin _ (.claim _ _ _) _ => inferInstanceAs (Decidable (∀ x ∈ s.opened, ¬x.op.IsClaim))
  | .begin _ (.update _ _ _ _) _ => isTrue trivial
  | .visit _ => isTrue trivial
  | .commit _ => isTrue trivial
  | .abort _ => isTrue trivial

/-- The step starts a claim. -/
def BeginsClaim : Act → Prop
  | .begin _ op _ => op.IsClaim
  | _ => False

instance (a : Act) : Decidable (BeginsClaim a) := by
  unfold BeginsClaim
  split <;> infer_instance

theorem InTurn.alone {s : Jobs} {a : Act} (h : InTurn s a) (ha : BeginsClaim a) :
    ∀ x ∈ s.opened, ¬x.op.IsClaim := by
  cases a with
  | begin t op todo =>
    cases op with
    | claim workerId now active => exact h
    | update jobId status now blocked => exact ha.elim
  | _ => exact ha.elim

/-- The jobs in the order of their creation. -/
def Ordered (rows : Table ProcessingData.id) : Prop := (rows.rows.map (·.createdAt)).Pairwise (· < ·)

instance (rows : Table ProcessingData.id) : Decidable (Ordered rows) := by
  unfold Ordered
  infer_instance

/-- The jobs that satisfy the clause, in this order. -/
def candidates (o : Stmt) (rows : Table ProcessingData.id) : List ProcessingData :=
  rows.rows.filter (sem.cond o)

/-- The job that a claim returns when it commits. -/
def returnedJob (s : Jobs) (t : Nat) : Option ClaimedJob :=
  match s.opened.find? t with
  | some ⟨_, .claim workerId now _, _, held⟩ =>
    (held.head?.bind s.rows.find?).bind fun j => (claimSet workerId now j).map (·.claimed)
  | _ => none

/-- What the queue sees of a step. -/
def event : Jobs × Act → Option (KeyQueue.Act Nat String)
  | (_, .insert j) => some (.arrive (j.id, j.address))
  | (s, .commit t) => (returnedJob s t).map fun job => .start (job.jobId, job.address)
  | _ => none

/-- The jobs created for the address, in this order. -/
def created (address : String) (tr : List (Jobs × Act)) : List Nat :=
  KeyQueue.ofKey address (KeyQueue.arrivals (tr.filterMap event))

/-- The jobs of the address that claims have returned, in this order. -/
def claimed (address : String) (tr : List (Jobs × Act)) : List Nat :=
  KeyQueue.ofKey address (KeyQueue.starts (tr.filterMap event))

/-- The pending jobs, by address. -/
def waiting (s : Jobs) : List (Nat × String) :=
  (s.rows.rows.filter fun j => j.status = .pending).map fun j => (j.id, j.address)

/-- The jobs of the address that are pending. -/
def pending (address : String) (s : Jobs) : List Nat := KeyQueue.ofKey address (waiting s)

/-- What is known of a state: of an open claim that it considers the first candidates. -/
structure Turn (s : Jobs) : Prop where
  inv : Inv s
  one : ∀ o ∈ s.opened, ∀ x ∈ s.opened, o.op.IsClaim → x.op.IsClaim → o.tid = x.tid
  first : ∀ o ∈ s.opened, o.op.IsClaim → o.held ++ o.todo <+: (candidates o.op s.rows).map (·.id)

variable {s s' : Jobs} {a : Act} {o x : Open Stmt Nat}

/-! ## Rows -/

theorem pending_of_cond {op : Stmt} (hc : op.IsClaim) {j : ProcessingData}
    (h : sem.cond op j = true) : j.status = .pending := by
  cases op with
  | claim workerId now active =>
    simp only [sem, Bool.and_eq_true, decide_eq_true_eq] at h
    exact h.1
  | update jobId status now blocked => exact hc.elim

theorem indexing_of_cond {op : Stmt} (hc : ¬op.IsClaim) {j : ProcessingData}
    (h : sem.cond op j = true) : j.status = .indexing := by
  cases op with
  | claim workerId now active => exact absurd trivial hc
  | update jobId status now blocked =>
    simp only [sem, Bool.and_eq_true, decide_eq_true_eq] at h
    exact h.1.2

/-- No statement changes when a job was created. -/
theorem ordered_setRows {op : Stmt} {ks : List Nat} {rows : Table ProcessingData.id}
    (h : Ordered rows) : Ordered (setRows sem op ks rows) := by
  have hset : ∀ j, ((sem.set op j).getD j).createdAt = j.createdAt := by
    intro j
    cases op with
    | claim workerId now active =>
      cases hc : claimSet workerId now j with
      | none => simp [sem, hc]
      | some j' =>
        obtain ⟨w, -, rfl⟩ := Db.claimSet_eq_some hc
        simp [sem, hc]
    | update jobId status now blocked => rfl
  have hmap : (setRows sem op ks rows).rows.map (·.createdAt) = rows.rows.map (·.createdAt) := by
    unfold setRows Table.update
    rw [List.map_map]
    refine List.map_congr_left fun j _ => ?_
    simp only [Function.comp]
    split
    · exact hset j
    · rfl
  unfold Ordered
  rw [hmap]
  exact h

/-- **The commit of a status update** leaves the pending jobs alone. -/
theorem filter_setRows (hi : Inv s) (hx : x ∈ s.opened) (hc : ¬x.op.IsClaim)
    {p : ProcessingData → Bool} (hp : ∀ j, p j = true → j.status = .pending) :
    (setRows sem x.op x.held s.rows).rows.filter p = s.rows.rows.filter p := by
  -- what it changes was indexing, and is finished now
  have hrow : ∀ j ∈ s.rows.rows, j.id ∈ x.held →
      p j = false ∧ p ((sem.set x.op j).getD j) = false := by
    intro j hj hk
    have hstatus := indexing_of_cond hc (cond_of_held hi.locks hx hj hk)
    refine ⟨Bool.eq_false_iff.mpr fun h => ?_, Bool.eq_false_iff.mpr fun h => ?_⟩
    · rw [hp j h] at hstatus
      exact absurd hstatus (by simp)
    · have hpending := hp _ h
      cases hop : x.op with
      | claim workerId now active => exact hc (hop ▸ trivial)
      | update jobId status now blocked =>
        rw [hop] at hpending
        simp only [sem, Option.getD_some, Db.statusSet] at hpending
        rcases hi.terminal x hx _ _ _ _ hop with ht | ht <;>
        · rw [ht] at hpending
          exact absurd hpending (by simp)
  unfold setRows Table.update
  rw [List.filter_map]
  have hfilter : s.rows.rows.filter (p ∘ fun j => if decide (j.id ∈ x.held) = true then
      (sem.set x.op j).getD j else j) = s.rows.rows.filter p := by
    refine List.filter_congr fun j hj => ?_
    simp only [Function.comp]
    split
    · rename_i hk
      obtain ⟨h, h'⟩ := hrow j hj (of_decide_eq_true hk)
      rw [h, h']
    · rfl
  rw [hfilter]
  refine (List.map_congr_left fun j hj => ?_).trans (List.map_id' _)
  obtain ⟨hj, hpj⟩ := List.mem_filter.mp hj
  refine if_neg fun hk => ?_
  rw [(hrow j hj (of_decide_eq_true hk)).1] at hpj
  exact absurd hpj (by simp)

/-! ## The scan -/

/-- In the order of creation there is one scan only. -/
theorem scan_eq (ho : Ordered s.rows) {op : Stmt} (hc : op.IsClaim) {todo : List Nat}
    (h : Scan sem s op todo) : todo = (candidates op s.rows).map (·.id) := by
  obtain ⟨hperm, hsorted⟩ := h
  have hfind : ∀ j ∈ s.rows.rows.filter (sem.cond op), s.rows.find? j.id = some j := fun j hj =>
    Table.find?_of_mem (List.mem_filter.mp hj).1
  have hrows : ((candidates op s.rows).map (·.id)).filterMap s.rows.find? =
      s.rows.rows.filter (sem.cond op) := by
    rw [List.filterMap_map]
    exact (List.filterMap_congr fun j hj => hfind j hj).trans List.filterMap_some
  have hperm' : (todo.filterMap s.rows.find?).Perm (s.rows.rows.filter (sem.cond op)) :=
    hrows ▸ hperm.filterMap s.rows.find?
  have horder : ∀ j j' : ProcessingData,
      sem.order op j ≤ sem.order op j' ↔ j.createdAt ≤ j'.createdAt := by
    cases op with
    | claim workerId now active => exact fun _ _ => Iff.rfl
    | update jobId status now blocked => exact hc.elim
  have hsorted' : (todo.filterMap s.rows.find?).Pairwise fun j j' => j.createdAt ≤ j'.createdAt :=
    hsorted.imp fun h => (horder _ _).mp h
  have hstrict : (s.rows.rows.filter (sem.cond op)).Pairwise fun j j' => j.createdAt ≤ j'.createdAt :=
    ((List.pairwise_map.mp ho).sublist List.filter_sublist).imp fun h => le_of_lt h
  have heq : todo.filterMap s.rows.find? = s.rows.rows.filter (sem.cond op) := by
    refine hperm'.eq_of_pairwise (fun j j' hj hj' hle hle' => ?_) hsorted' hstrict
    have hj := (List.mem_filter.mp (hperm'.mem_iff.mp hj)).1
    have hj' := (List.mem_filter.mp hj').1
    exact List.inj_on_of_nodup_map (ho.imp fun h => ne_of_lt h) hj hj' (le_antisymm hle hle')
  -- every key of the scan has a row
  have hback : (todo.filterMap s.rows.find?).map (·.id) = todo := by
    rw [List.map_filterMap]
    refine (List.filterMap_congr fun k hk => ?_).trans List.filterMap_some
    obtain ⟨j, hj, rfl⟩ := List.mem_map.mp (hperm.mem_iff.mp hk)
    rw [hfind j hj]
    rfl
  rw [← hback, heq]
  rfl

/-- **While a claim is open** its candidates become more at most. -/
theorem candidates_next (ht : Turn s) (h : Step s a s') (ho : o ∈ s.opened) (hc : o.op.IsClaim)
    (hopen : a ≠ .commit o.tid) : candidates o.op s.rows <+: candidates o.op s'.rows := by
  obtain ⟨-, hstep⟩ := step_sends h
  cases a with
  | insert r =>
    obtain ⟨hfresh, rfl⟩ := insert_inv hstep
    unfold candidates
    rw [Table.rows_insertIgnore hfresh, List.filter_append]
    exact List.prefix_append _ _
  | begin t op todo =>
    obtain ⟨-, -, rfl⟩ := begin_inv hstep
    exact List.prefix_refl _
  | visit t =>
    obtain ⟨y, k, rest, -, -, -, -, rfl | ⟨r, -, -, -, -, rfl⟩⟩ := visit_inv hstep <;>
      exact List.prefix_refl _
  | commit t =>
    obtain ⟨y, hy, rfl, -, rfl⟩ := commit_inv hstep
    have hupdate : ¬y.op.IsClaim := fun hyc => hopen (congrArg _ (ht.one y hy o ho hyc hc))
    unfold candidates
    rw [filter_setRows ht.inv hy hupdate fun j => pending_of_cond hc]
  | abort t =>
    obtain rfl := abort_inv hstep
    exact List.prefix_refl _

/-- A claim finds the next candidate unlocked, and takes it. -/
theorem claim_visit (ht : Turn s) (h : ReadCommitted.step sem s (.visit o.tid) = some s')
    (ho : o ∈ s.opened) (hc : o.op.IsClaim) :
    ∃ k rest, o.todo = k :: rest ∧ o.held = [] ∧ s' = put s { o with todo := rest, held := [k] } := by
  obtain ⟨y, k, rest, hy, hid, htodo, hfull, hcase⟩ := visit_cases h
  obtain rfl := Table.eq_of_key hy ho hid
  obtain ⟨r, hr, rfl, hcond⟩ : ∃ r ∈ s.rows, r.id = k ∧ sem.cond y.op r = true := by
    have hk : k ∈ (candidates y.op s.rows).map (·.id) :=
      (ht.first y ho hc).subset (List.mem_append_right _ (htodo ▸ List.mem_cons_self))
    obtain ⟨r, hr, rfl⟩ := List.mem_map.mp hk
    obtain ⟨hr, hcond⟩ := List.mem_filter.mp hr
    exact ⟨r, hr, rfl, hcond⟩
  rcases hcase with ⟨hlock, -, -⟩ | ⟨hfalse, -⟩ | ⟨-, -, -, -, rfl⟩
  · -- another claim does not overlap, and a status update holds no pending job
    obtain ⟨x, hx, hne, hheld⟩ := lockedByOther_eq_true.mp hlock
    by_cases hxc : x.op.IsClaim
    · exact absurd (ht.one x hx y ho hxc hc) hne
    · have hstatus := indexing_of_cond hxc (cond_of_held ht.inv.locks hx hr hheld)
      rw [pending_of_cond hc hcond] at hstatus
      exact absurd hstatus (by simp)
  · rw [hfalse r hr rfl] at hcond
    exact absurd hcond (by simp)
  · have hnil : y.held = [] := by
      cases hop : y.op with
      | claim workerId now active =>
        unfold full at hfull
        rw [hop] at hfull
        have : ¬1 ≤ y.held.length := by simpa [sem] using hfull
        exact List.length_eq_zero_iff.mp (by omega)
      | update jobId status now blocked =>
        rw [hop] at hc
        exact hc.elim
    exact ⟨r.id, rest, htodo, hnil, by rw [hnil]⟩

/-- **What an open claim considers** are the candidates at its start, from then on. -/
theorem claim_next (ht : Turn s) (h : Step s a s') (hordered : BeginsClaim a → Ordered s.rows) :
    ∀ o' ∈ s'.opened, o'.op.IsClaim →
    (a = .begin o'.tid o'.op (o'.held ++ o'.todo) ∧
        o'.held ++ o'.todo = (candidates o'.op s.rows).map (·.id)) ∨
      ∃ o ∈ s.opened, o.tid = o'.tid ∧ o.op = o'.op ∧ o.held ++ o.todo = o'.held ++ o'.todo := by
  obtain ⟨-, hstep⟩ := step_sends h
  intro o' ho' hc
  have same : ∀ o ∈ s.opened, o = o' →
      ∃ o ∈ s.opened, o.tid = o'.tid ∧ o.op = o'.op ∧ o.held ++ o.todo = o'.held ++ o'.todo := by
    rintro o ho rfl
    exact ⟨o, ho, rfl, rfl, rfl⟩
  cases a with
  | insert r => obtain ⟨-, rfl⟩ := insert_inv hstep; exact Or.inr (same o' ho' rfl)
  | begin t op todo =>
    obtain ⟨-, hscan, rfl⟩ := begin_inv hstep
    rcases mem_put.mp ho' with rfl | ⟨ho', -⟩
    · exact Or.inl ⟨rfl, scan_eq (hordered hc) hc hscan⟩
    · exact Or.inr (same o' ho' rfl)
  | visit t =>
    refine Or.inr ?_
    obtain ⟨y, -, -, hy, rfl, -, -, -⟩ := visit_inv hstep
    by_cases hyc : y.op.IsClaim
    · obtain ⟨k, rest, htodo, hnil, rfl⟩ := claim_visit ht hstep hy hyc
      rcases mem_put.mp ho' with rfl | ⟨ho', -⟩
      · exact ⟨y, hy, rfl, rfl, by rw [hnil, htodo]; rfl⟩
      · exact same o' ho' rfl
    · obtain ⟨z, k, rest, hz, hid, -, -, rfl | ⟨r, -, -, -, -, rfl⟩⟩ := visit_inv hstep
      all_goals
        obtain rfl := Table.eq_of_key hz hy hid
        rcases mem_put.mp ho' with rfl | ⟨ho', -⟩
        · exact absurd hc hyc
        · exact same o' ho' rfl
  | commit t =>
    obtain ⟨y, -, -, -, rfl⟩ := commit_inv hstep
    exact Or.inr (same o' (Table.mem_erase.mp ho').1 rfl)
  | abort t =>
    obtain rfl := abort_inv hstep
    exact Or.inr (same o' (Table.mem_erase.mp ho').1 rfl)

theorem ordered_step (ho : Ordered s.rows) (h : Guarded Step InTurn s a s') : Ordered s'.rows := by
  obtain ⟨-, hstep⟩ := step_sends h.1
  cases a with
  | insert r =>
    have hlater := h.2
    obtain ⟨hfresh, rfl⟩ := insert_inv hstep
    unfold Ordered
    rw [Table.rows_insertIgnore hfresh, List.map_append, List.pairwise_append]
    refine ⟨ho, List.pairwise_singleton _ _, fun t ht u hu => ?_⟩
    obtain ⟨j, hj, rfl⟩ := List.mem_map.mp ht
    rw [List.mem_singleton.mp hu]
    exact hlater j hj
  | begin t op todo => obtain ⟨-, -, rfl⟩ := begin_inv hstep; exact ho
  | visit t =>
    obtain ⟨y, k, rest, -, -, -, -, rfl | ⟨r, -, -, -, -, rfl⟩⟩ := visit_inv hstep <;> exact ho
  | commit t => obtain ⟨y, -, -, -, rfl⟩ := commit_inv hstep; exact ordered_setRows ho
  | abort t => obtain rfl := abort_inv hstep; exact ho

theorem turn_init : Turn init :=
  ⟨inv_init, fun o ho => absurd ho (Table.not_mem_empty o),
    fun o ho => absurd ho (Table.not_mem_empty o)⟩

/-- **One step**, if no claim begins in it, or none is open and the jobs are in order. -/
theorem turn_step (ht : Turn s) (h : Step s a s')
    (hbegin : BeginsClaim a → Ordered s.rows ∧ ∀ x ∈ s.opened, ¬x.op.IsClaim) : Turn s' := by
  have hnext := claim_next ht h fun hb => (hbegin hb).1
  -- no claim begins while another one is open
  have hnew : ∀ (o' : Open Stmt Nat) todo, a = .begin o'.tid o'.op todo → o'.op.IsClaim →
      ∀ x' ∈ s'.opened, x'.op.IsClaim → x'.tid = o'.tid := by
    intro o' todo ha hc x' hx' hxc
    rcases hnext x' hx' hxc with ⟨hb, -⟩ | ⟨x, hx, -, he, -⟩
    · exact (Label.begin.inj (hb.symm.trans ha)).1
    · have halone := (hbegin (by rw [ha]; exact hc)).2
      exact absurd (he ▸ hxc) (halone x hx)
  refine ⟨inv_step ht.inv h, ?_, ?_⟩
  · intro o' ho' x' hx' hc hxc
    rcases hnext o' ho' hc with ⟨ha, -⟩ | ⟨o, ho, hid, he, -⟩
    · exact (hnew o' _ ha hc x' hx' hxc).symm
    · rcases hnext x' hx' hxc with ⟨ha, -⟩ | ⟨x, hx, hxid, hxe, -⟩
      · exact hnew x' _ ha hxc o' ho' hc
      · exact hid.symm.trans ((ht.one o ho x hx (he ▸ hc) (hxe ▸ hxc)).trans hxid)
  · intro o' ho' hc
    rcases hnext o' ho' hc with ⟨ha, hall⟩ | ⟨o, ho, hid, he, hall⟩
    · obtain ⟨-, hstep⟩ := step_sends h
      rw [ha] at hstep
      obtain ⟨-, -, rfl⟩ := begin_inv hstep
      rw [hall]
      exact List.prefix_refl _
    · have hopen : a ≠ .commit o.tid := by
        rintro rfl
        obtain ⟨-, hstep⟩ := step_sends h
        obtain ⟨y, -, hyt, -, rfl⟩ := commit_inv hstep
        exact (Table.mem_erase.mp ho').2 hid.symm
      have hoc : o.op.IsClaim := he ▸ hc
      rw [← hall, ← he]
      exact (ht.first o ho hoc).trans ((candidates_next ht h ho hoc hopen).map _)

/-- **Where no two claims overlap** and each job is created later than those before it. -/
theorem inTurn_step (h : Turn s ∧ Ordered s.rows) (hs : Guarded Step InTurn s a s') :
    Turn s' ∧ Ordered s'.rows :=
  ⟨turn_step h.1 hs.1 fun hb => ⟨h.2, hs.2.alone hb⟩, ordered_step h.2 hs⟩

/-! ## The commit of a claim -/

/-- A claim holds the first of the rows it considers. -/
theorem held_eq_head (ht : Turn s) (ho : o ∈ s.opened) (hc : o.op.IsClaim)
    (hmay : MayCommit sem s o) :
    o.held = (o.held ++ o.todo).head?.toList := by
  rcases claim_held ht.inv ho hc with hnil | ⟨k, hk⟩
  · have hdone : o.todo = [] := by
      refine hmay.1.resolve_right fun hfull => ?_
      cases hop : o.op with
      | claim workerId now active =>
        unfold full at hfull
        rw [hop, hnil] at hfull
        exact absurd hfull (by simp [sem])
      | update jobId status now blocked =>
        rw [hop] at hc
        exact hc.elim
    rw [hnil, hdone]
    rfl
  · rw [hk]
    rfl

/-- **What a claim returns**: nothing if it considers no row, or else the first candidate. -/
theorem returnedJob_eq (ht : Turn s) (ho : o ∈ s.opened) (hmay : MayCommit sem s o) {workerId : Nat}
    {now : Int} {active : List String} (hop : o.op = .claim workerId now active) :
    (o.held ++ o.todo = [] ∧ o.held = [] ∧ returnedJob s o.tid = none) ∨
      ∃ j rest j', candidates o.op s.rows = j :: rest ∧ o.held = [j.id] ∧
        claimSet workerId now j = some j' ∧ returnedJob s o.tid = some j'.claimed := by
  have hc : o.op.IsClaim := hop ▸ trivial
  have hheld := held_eq_head ht ho hc hmay
  have hfind : s.opened.find? o.tid = some o := Table.find?_of_mem ho
  have hreturned : returnedJob s o.tid =
      (o.held.head?.bind s.rows.find?).bind fun j => (claimSet workerId now j).map (·.claimed) := by
    obtain ⟨tid, op, todo, held⟩ := o
    subst hop
    unfold returnedJob
    rw [hfind]
  cases hall : o.held ++ o.todo with
  | nil =>
    have hnil := (List.append_eq_nil_iff.mp hall).1
    exact Or.inl ⟨rfl, hnil, by rw [hreturned, hnil]; rfl⟩
  | cons k rest =>
    rw [hall, List.head?_cons, Option.toList_some] at hheld
    have hprefix := ht.first o ho hc
    rw [hall] at hprefix
    cases hcand : candidates o.op s.rows with
    | nil =>
      rw [hcand] at hprefix
      exact absurd (List.prefix_nil.mp hprefix) (by simp)
    | cons j others =>
      rw [hcand, List.map_cons, List.cons_prefix_cons] at hprefix
      obtain ⟨rfl, -⟩ := hprefix
      have hj : j ∈ s.rows := by
        have hmem : j ∈ candidates o.op s.rows := hcand ▸ List.mem_cons_self
        exact (List.mem_filter.mp hmem).1
      have hset := hmay.2 j hj (hheld ▸ List.mem_singleton_self _)
      rw [hop] at hset
      obtain ⟨j', hset⟩ := Option.isSome_iff_exists.mp hset
      refine Or.inr ⟨j, others, j', rfl, hheld, hset, ?_⟩
      rw [hreturned, hheld, List.head?_cons, Option.bind_some, Table.find?_of_mem hj,
        Option.bind_some]
      have hset' : claimSet workerId now j = some j' := hset
      rw [hset']
      rfl

/-- The claim of the first candidate starts the first job of its address. -/
theorem waiting_claim {workerId : Nat} {now : Int} {active : List String} {j j' : ProcessingData}
    {rest : List ProcessingData} {opened : Table (Open.tid (ω := Stmt) (κ := Nat))}
    (hop : o.op = .claim workerId now active) (hcand : candidates o.op s.rows = j :: rest)
    (hheld : o.held = [j.id]) (hset : claimSet workerId now j = some j') :
    KeyQueue.InOrder (waiting s) (.start (j.id, j.address))
      (waiting ⟨setRows sem o.op o.held s.rows, opened⟩) := by
  obtain ⟨before, after, hrows, hbefore, hcond, -⟩ := List.filter_eq_cons_iff.mp hcand
  rw [hop] at hcond hbefore
  simp only [sem, Bool.and_eq_true, decide_eq_true_eq, Bool.not_eq_true', decide_eq_false_iff_not]
    at hcond hbefore
  obtain ⟨hpending, hfree⟩ := hcond
  have hset' : sem.set o.op j = some j' := by rw [hop]; exact hset
  have hclaimed := rows_setRows_one hrows hset'
  obtain ⟨w, -, rfl⟩ := Db.claimSet_eq_some hset
  unfold waiting
  simp only
  rw [hheld, hclaimed, hrows, List.filter_append, List.filter_append, List.map_append,
    List.map_append, List.filter_cons_of_pos (by simp [hpending]), List.filter_cons_of_neg (by simp),
    List.map_cons]
  refine .start fun y hy he => ?_
  -- a pending job above that is no candidate is of an active address
  obtain ⟨r, hr, rfl⟩ := List.mem_map.mp hy
  obtain ⟨hr, hs⟩ := List.mem_filter.mp hr
  have haddress : r.address = j.address := he
  refine hbefore r hr ⟨of_decide_eq_true hs, ?_⟩
  rw [haddress]
  exact hfree

/-- **One step of the queue**, or none. -/
theorem waiting_step (ht : Turn s) (h : Guarded Step InTurn s a s') :
    (waiting s' = waiting s ∧ event (s, a) = none) ∨
      ∃ b, KeyQueue.InOrder (waiting s) b (waiting s') ∧ b.visible = event (s, a) := by
  obtain ⟨hsends, hstep⟩ := step_sends h.1
  cases a with
  | insert r =>
    obtain ⟨hfresh, rfl⟩ := insert_inv hstep
    refine Or.inr ⟨.arrive (r.id, r.address), ?_, rfl⟩
    have hw : waiting { s with rows := s.rows.insertIgnore r } =
        waiting s ++ [(r.id, r.address)] := by
      unfold waiting
      rw [Table.rows_insertIgnore hfresh, List.filter_append, List.map_append]
      simp [hsends.1]
    rw [hw]
    exact .arrive _
  | begin t op todo =>
    obtain ⟨-, -, rfl⟩ := begin_inv hstep
    exact Or.inl ⟨rfl, rfl⟩
  | visit t =>
    obtain ⟨y, k, rest, -, -, -, -, rfl | ⟨r, -, -, -, -, rfl⟩⟩ := visit_inv hstep <;>
      exact Or.inl ⟨rfl, rfl⟩
  | abort t =>
    obtain rfl := abort_inv hstep
    exact Or.inl ⟨rfl, rfl⟩
  | commit t =>
    obtain ⟨o, ho, rfl, hmay, rfl⟩ := commit_inv hstep
    cases hop : o.op with
    | update jobId status now blocked =>
      have hc : ¬o.op.IsClaim := by
        rw [hop]
        exact id
      refine Or.inl ⟨?_, ?_⟩
      · unfold waiting
        rw [← hop]
        simp only
        rw [filter_setRows ht.inv ho hc fun j hj => of_decide_eq_true hj]
      · have hfind : s.opened.find? o.tid = some o := Table.find?_of_mem ho
        obtain ⟨tid, op, todo, held⟩ := o
        subst hop
        unfold event returnedJob
        simp only [hfind, Option.map_none]
    | claim workerId now active =>
      rcases returnedJob_eq ht ho hmay hop with ⟨-, hnil, hnone⟩ |
        ⟨j, rest, j', hcand, hheld, hset, hreturned⟩
      · refine Or.inl ⟨?_, by simp only [event, hnone, Option.map_none]⟩
        have hsame : setRows sem o.op o.held s.rows = s.rows := by
          refine Table.eq_of_rows (List.map_id'' (fun r => ?_) _)
          rw [hnil]
          rfl
        unfold waiting
        rw [← hop]
        simp only [hsame]
      · refine Or.inr ⟨.start (j.id, j.address), ?_, ?_⟩
        · rw [← hop]
          exact waiting_claim hop hcand hheld hset
        · obtain ⟨w, -, rfl⟩ := Db.claimSet_eq_some hset
          simp only [event, hreturned]
          rfl

/-! ## Runs -/

/-- **Created, then claimed, in one order**, also while jobs are created and finished during a
claim: the jobs of an address that claims have returned, and then those that are pending, are the jobs
that were created for it. -/
theorem claims_in_turn {tr : List (Jobs × Act)} (h : Run (Guarded Step InTurn) init tr s)
    (address : String) : claimed address tr ++ pending address s = created address tr := by
  obtain ⟨l, hl, hevents⟩ := h.simulates waiting event KeyQueue.Act.visible
    (I := fun s => Turn s ∧ Ordered s.rows) (fun _ _ _ h hs => inTurn_step h hs)
    (fun _ _ _ h hs => waiting_step h.1 hs)
    ⟨turn_init, List.Pairwise.nil⟩
  have hfifo := KeyQueue.started_append_waiting hl address
  unfold KeyQueue.events at hfifo
  rw [hevents] at hfifo
  exact hfifo

/-- A claim is open while the job of its snapshot's active address is finished and another one is
created: it takes the job for `"B"`, although by then the second one for `"A"` comes first. -/
def whileOpen : List Act :=
  [.insert ⟨1, "A", .pending, 0, 0, none, 10, 1⟩, .begin 1 (.claim 1 5 []) [1], .visit 1, .commit 1,
    .insert ⟨2, "A", .pending, 1, 1, none, 10, 1⟩, .insert ⟨3, "B", .pending, 2, 2, none, 10, 1⟩,
    .begin 2 (.claim 2 6 ["A"]) [3], .begin 3 (.update 1 .ready 7 false) [1], .visit 3, .commit 3,
    .insert ⟨4, "A", .pending, 8, 8, none, 10, 1⟩, .visit 2, .commit 2,
    .begin 4 (.claim 1 9 ["B"]) [2, 4], .visit 4, .commit 4]

theorem claims_in_turn_whileOpen : ∃ tr s, Run (Guarded Step InTurn) init tr s ∧
    tr.map Prod.snd = whileOpen ∧ returned tr = [1, 3, 2] ∧
    claimed "A" tr ++ pending "A" s = created "A" tr ∧ pending "A" s = [4] := by
  obtain ⟨tr, s, hr, hl, htest⟩ := exists_run_of_exec step init whileOpen
    (fun tr s => decide (∀ x ∈ tr, InTurn x.1 x.2) && decide (returned tr = [1, 3, 2]) &&
      decide (pending "A" s = [4])) (by decide)
  simp only [Bool.and_eq_true, decide_eq_true_eq] at htest
  have hg := Run.guarded_iff.mpr ⟨hr, htest.1.1⟩
  exact ⟨tr, s, hg, hl, htest.1.2, claims_in_turn hg "A", htest.2⟩

/-- What an open claim considers, since its start in `u`. -/
def Considers (u : Jobs) (t : Nat) (op : Stmt) (s : Jobs) : Prop :=
  ∃ o ∈ s.opened, o.tid = t ∧ o.op = op ∧
    o.held ++ o.todo = (candidates op u.rows).map (·.id) ∧
      candidates op u.rows <+: candidates op s.rows

theorem considers_step {u : Jobs} {t : Nat} {op : Stmt} (ht : Turn s) (hc : op.IsClaim)
    (h : Step s a s') (hopen : a ≠ .commit t ∧ a ≠ .abort t) (hnone : ¬BeginsClaim a)
    (hs : Considers u t op s) : Considers u t op s' := by
  obtain ⟨o, ho, rfl, rfl, hall, hprefix⟩ := hs
  obtain ⟨-, hstep⟩ := step_sends h
  obtain ⟨o', ho', hid, hop⟩ := opened_stays hstep ho hopen.1 hopen.2
  refine ⟨o', ho', hid, hop, ?_, hprefix.trans (candidates_next ht h ho hc hopen.1)⟩
  rcases claim_next ht h (fun hb => absurd hb hnone) o' ho' (hop ▸ hc) with
    ⟨rfl, -⟩ | ⟨x, hx, hxid, -, hsame⟩
  · exact absurd (hid ▸ Table.key_mem_keys ho) (begin_inv hstep).1
  · rw [← hsame, Table.eq_of_key hx ho (hxid.trans hid)]
    exact hall

/-- **A claim that overlaps no other**, where the jobs that are there at its start were created one
after the other, returns what `claim_pending_job` executed alone at its start returns. -/
theorem claims_as_at_start {tr b : List (Jobs × Act)} {u u' v w : Jobs} {t workerId : Nat} {now : Int}
    {active : List String} {todo : List Nat} (h : Run Step init tr u)
    (halone : ∀ x ∈ u.opened, ¬x.op.IsClaim) (hordered : Ordered u.rows)
    (hbegin : Step u (.begin t (.claim workerId now active) todo) u') (hb : Run Step u' b v)
    (hopen : ∀ z ∈ b, (z.2 ≠ .commit t ∧ z.2 ≠ .abort t) ∧ ¬BeginsClaim z.2)
    (hcommit : Step v (.commit t) w) {db : Db} (hdb : db.processingData = u.rows) :
    ∃ db', db.claimPendingJob workerId now = .ok (returnedJob v t, db') := by
  have hu : Turn u := ⟨inv_run h, fun o ho _ _ hc => absurd hc (halone o ho),
    fun o ho hc => absurd hc (halone o ho)⟩
  have hstart : Considers u t (.claim workerId now active) u' := by
    obtain ⟨-, hstep⟩ := step_sends hbegin
    obtain ⟨-, hscan, rfl⟩ := begin_inv hstep
    exact ⟨_, mem_put.mpr (Or.inl rfl), rfl, rfl,
      scan_eq hordered (show (Stmt.claim workerId now active).IsClaim from trivial) hscan,
      List.prefix_refl _⟩
  have hrun : Run (Guarded Step fun _ a => (a ≠ .commit t ∧ a ≠ .abort t) ∧ ¬BeginsClaim a) u' b v :=
    Run.guarded_iff.mpr ⟨hb, hopen⟩
  obtain ⟨hv, o, ho, rfl, hop, hall, hprefix⟩ := hrun.invariant
    (I := fun s => Turn s ∧ Considers u t (.claim workerId now active) s)
    (fun _ _ _ hI hs => ⟨turn_step hI.1 hs.1 fun hb => absurd hb hs.2.2,
      considers_step hI.1 trivial hs.1 hs.2.1 hs.2.2 hI.2⟩)
    ⟨turn_step hu hbegin fun _ => ⟨hordered, halone⟩, hstart⟩
  obtain ⟨-, hstep⟩ := step_sends hcommit
  obtain ⟨x, hx, hid, hmay, -⟩ := commit_inv hstep
  obtain rfl := Table.eq_of_key hx ho hid
  -- the candidates are the jobs that are claimable at the start, in the order of their creation
  have hactive : active = activeAddresses u.rows := (step_sends hbegin).1
  have hnext : db.nextJob = (candidates (.claim workerId now active) u.rows).head? := by
    have hdbOrdered : db.Ordered := by
      unfold Db.Ordered
      rw [hdb]
      exact hordered
    unfold candidates
    rw [Db.nextJob_of_ordered hdbOrdered, ← List.head?_filter, hactive, ← hdb]
    congr 2
    funext j
    exact (claim_cond db workerId now j).symm
  unfold Db.claimPendingJob
  rw [hnext]
  rcases returnedJob_eq hv ho hmay hop with ⟨hnil, -, hnone⟩ |
    ⟨j, rest, j', hcand, hheld, hset, hreturned⟩
  · rw [hnil] at hall
    rw [List.map_eq_nil_iff.mp hall.symm, hnone]
    exact ⟨db, rfl⟩
  · cases hfirst : candidates (.claim workerId now active) u.rows with
    | nil =>
      rw [hheld, hfirst] at hall
      exact absurd hall (by simp)
    | cons i others =>
      rw [hop] at hcand
      rw [hfirst, hcand, List.cons_prefix_cons] at hprefix
      obtain ⟨rfl, -⟩ := hprefix
      rw [hreturned]
      simp only [List.head?_cons, hset]
      exact ⟨_, rfl⟩

/-- Two claims overlap, and then there are two pending jobs. -/
def overlapped : List Act :=
  [.insert ⟨1, "A", .pending, 0, 0, none, 10, 1⟩, .insert ⟨2, "C", .pending, 1, 1, none, 10, 1⟩,
    .begin 1 (.claim 1 5 []) [1, 2], .visit 1, .begin 4 (.claim 3 5 []) [1, 2], .visit 4, .visit 4,
    .commit 1, .commit 4,
    .insert ⟨3, "A", .pending, 2, 2, none, 10, 1⟩, .insert ⟨4, "B", .pending, 3, 3, none, 10, 1⟩]

/-- What happens during the next claim: job 1 is finished, and a job is created. -/
def meanwhile : List Act :=
  [.begin 3 (.update 1 .ready 7 false) [1], .visit 3, .commit 3,
    .insert ⟨5, "D", .pending, 0, 8, none, 10, 1⟩, .visit 2]

theorem claims_as_at_start_whileOpen : ∃ (db db' : Db) (v : Jobs),
    returnedJob v 2 = some ⟨4, "B", 1, 10⟩ ∧ db.claimPendingJob 2 6 = .ok (returnedJob v 2, db') := by
  obtain ⟨tr, u, hr, -, htest⟩ := exists_run_of_exec step init overlapped
    (fun _ u => decide (∀ x ∈ u.opened, ¬x.op.IsClaim) && decide (Ordered u.rows) &&
      decide (∀ k ∈ u.rows.keys, k < 5) &&
      (step u (.begin 2 (.claim 2 6 ["A", "C"]) [4])).any fun (u' : Jobs) =>
        (exec step u' meanwhile).any fun (p : List (Jobs × Act) × Jobs) =>
          decide (∀ x ∈ p.1, (x.2 ≠ .commit 2 ∧ x.2 ≠ .abort 2) ∧ ¬BeginsClaim x.2) &&
            decide (returnedJob p.2 2 = some ⟨4, "B", 1, 10⟩) && (step p.2 (.commit 2)).isSome)
    (by decide)
  simp only [Bool.and_eq_true, decide_eq_true_eq, Option.any_eq_true] at htest
  obtain ⟨⟨⟨halone, hordered⟩, hkeys⟩, u', hbegin, ⟨b, v⟩, hexec, ⟨hopen, hjob⟩, hcommit⟩ := htest
  obtain ⟨w, hcommit⟩ := Option.isSome_iff_exists.mp hcommit
  let db : Db := { Db.empty with processingData := u.rows, nextId := 5, seq := hkeys }
  have hdb : db.processingData = u.rows := rfl
  obtain ⟨db', hdb'⟩ :=
    claims_as_at_start hr halone hordered hbegin (run_of_exec hexec) hopen hcommit hdb
  exact ⟨db, db', v, hjob, hdb'⟩

end OnChainEventIndexer.JobClaims
