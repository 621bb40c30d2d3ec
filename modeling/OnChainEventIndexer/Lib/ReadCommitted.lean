import OnChainEventIndexer.Lib.Table
import Mathlib.Data.List.DropRight

/-!
# Row locks under READ COMMITTED

Statements of the form `UPDATE … WHERE` (with the locking `SELECT … FOR UPDATE` inside them, if
any) over one table, run concurrently. What a statement of kind `o : ω` does is given by a
`Semantics`: its `WHERE` clause `cond o` on one row (sub-selects are evaluated in the statement's
snapshot, so their results are part of `o`), the `ORDER BY` column, the `SET` clause (`none`: an
error is raised), whether locked rows are skipped, and the `LIMIT`.

A statement goes through these steps (`step`):
* `begin`: the snapshot is taken. `todo` lists the keys of the committed rows that satisfy
  `cond`, in `ORDER BY` order (ties in any order).
* `visit`: the next key of `todo`. A row another open statement holds is passed over
  (`SKIP LOCKED`), or waited for (no step). Otherwise the newest committed version of the row is
  re-checked against `cond`, and locked if it still satisfies it.
* `commit`: once the scan is over or the limit is reached, `SET` is applied to the locked rows
  and becomes visible to the others. `abort`: nothing happens.

`Locks` is the invariant: a key is held by one statement at most, and a held row satisfies its
holder's `cond` until the holder commits. So, although a statement may act on a snapshot that is
long stale, each row it changes satisfies its `WHERE` clause, on the row's own columns, at the
moment of the commit: `row_next` and `row_origin` describe every change of a row.
What the sub-selects saw may no longer be true by then; nothing here says it is.
-/

namespace ReadCommitted

open Keyed

/-- The statements of a system over rows with key `key`. -/
structure Semantics {ρ κ : Type} (ω : Type) (key : ρ → κ) where
  cond : ω → ρ → Bool
  order : ω → ρ → Int
  set : ω → ρ → Option ρ
  set_key : ∀ {o r r'}, set o r = some r' → key r' = key r
  skipLocked : ω → Bool
  limit : ω → Option Nat

/-- A statement in progress: the keys still to visit and the keys of the rows it has locked. -/
structure Open (ω κ : Type) where
  tid : Nat
  op : ω
  todo : List κ
  held : List κ

/-- The committed rows and the statements in progress. -/
structure State {ρ κ : Type} (ω : Type) (key : ρ → κ) where
  rows : Table key
  opened : Table (Open.tid (ω := ω) (κ := κ))

/-- The steps of the statements, and the insertion of a row. -/
inductive Label (ω ρ κ : Type)
  | insert (r : ρ)
  | begin (t : Nat) (o : ω) (todo : List κ)
  | visit (t : Nat)
  | commit (t : Nat)
  | abort (t : Nat)
deriving DecidableEq

variable {ω ρ κ : Type} {key : ρ → κ}

/-- The step that starts statement `t`. -/
def Label.begins (t : Nat) : Label ω ρ κ → Bool
  | .begin u _ _ => u = t
  | _ => false

/-- The steps of a trace since statement `t` took its snapshot. -/
def sinceBegin (t : Nat) (tr : List (State ω key × Label ω ρ κ)) :
    List (State ω key × Label ω ρ κ) :=
  tr.rtakeWhile fun x => !x.2.begins t

theorem sinceBegin_concat {t : Nat} {tr : List (State ω key × Label ω ρ κ)}
    {x : State ω key × Label ω ρ κ} (h : x.2.begins t = false) :
    sinceBegin t (tr ++ [x]) = sinceBegin t tr ++ [x] := by
  unfold sinceBegin
  rw [List.rtakeWhile_concat_pos]
  simp [h]

variable [DecidableEq κ] (sem : Semantics ω key)

/-- Another open statement holds `k`. -/
def lockedByOther (s : State ω key) (t : Nat) (k : κ) : Bool :=
  s.opened.rows.any fun o => o.tid ≠ t && k ∈ o.held

/-- The `LIMIT` is reached. -/
def full (o : Open ω κ) : Bool :=
  match sem.limit o.op with
  | some n => n ≤ o.held.length
  | none => false

/-- `todo` lists the rows of the snapshot that satisfy `WHERE`, in `ORDER BY` order. -/
def Scan (s : State ω key) (o : ω) (todo : List κ) : Prop :=
  todo.Perm ((s.rows.rows.filter (sem.cond o)).map key) ∧
    (todo.filterMap s.rows.find?).Pairwise fun r r' => sem.order o r ≤ sem.order o r'

instance (s : State ω key) (o : ω) (todo : List κ) : Decidable (Scan sem s o todo) :=
  inferInstanceAs (Decidable (_ ∧ _))

/-- `SET` on the rows with a key in `ks`. -/
def setRows (o : ω) (ks : List κ) (rows : Table key) : Table key :=
  rows.update (fun r => key r ∈ ks) (fun r => (sem.set o r).getD r) fun r => by
    cases h : sem.set o r with
    | none => rfl
    | some r' => exact sem.set_key h

/-- Replace the entry of statement `o.tid` by `o`. -/
def put (s : State ω key) (o : Open ω κ) : State ω key :=
  { s with opened := (s.opened.erase o.tid).insertIgnore o }

/-- What `visit` makes of an open statement: `none` when there is nothing to visit or the
statement has to wait. -/
def visitNext (s : State ω key) (o : Open ω κ) : Option (Open ω κ) :=
  if full sem o then none
  else match o.todo with
    | [] => none
    | k :: rest =>
      if lockedByOther s o.tid k then
        if sem.skipLocked o.op then some { o with todo := rest } else none
      else match s.rows.find? k with
        | some r =>
          if sem.cond o.op r then some { o with todo := rest, held := k :: o.held }
          else some { o with todo := rest }
        | none => some { o with todo := rest }

/-- A statement may commit: the scan is over or the limit reached, and no `SET` raises. -/
def MayCommit (s : State ω key) (o : Open ω κ) : Prop :=
  (o.todo = [] ∨ full sem o = true) ∧
    ∀ r ∈ s.rows.rows, key r ∈ o.held → (sem.set o.op r).isSome = true

instance (s : State ω key) (o : Open ω κ) : Decidable (MayCommit sem s o) :=
  inferInstanceAs (Decidable (_ ∧ _))

/-- One step of the system. -/
def step (s : State ω key) : Label ω ρ κ → Option (State ω key)
  | .insert r => if key r ∈ s.rows.keys then none else some { s with rows := s.rows.insertIgnore r }
  | .begin t o todo =>
    if t ∉ s.opened.keys ∧ Scan sem s o todo then some (put s ⟨t, o, todo, []⟩) else none
  | .visit t => (s.opened.find? t).bind fun o => (visitNext sem s o).map (put s)
  | .commit t => (s.opened.find? t).bind fun o =>
    if MayCommit sem s o then
      some { rows := setRows sem o.op o.held s.rows, opened := s.opened.erase t }
    else none
  | .abort t =>
    if t ∈ s.opened.keys then some { s with opened := s.opened.erase t } else none

variable {sem}

/-! ## What each step does -/

omit [DecidableEq κ] in
theorem mem_put {s : State ω key} {o x : Open ω κ} :
    x ∈ (put s o).opened ↔ x = o ∨ (x ∈ s.opened ∧ x.tid ≠ o.tid) := by
  unfold put
  rw [Table.mem_insertIgnore, Table.mem_erase]
  have hk : o.tid ∉ (s.opened.erase o.tid).keys := fun h => by
    obtain ⟨y, hy, hyk⟩ := Table.mem_keys.mp h
    exact (Table.mem_erase.mp hy).2 hyk
  constructor
  · rintro (h | ⟨rfl, -⟩)
    · exact Or.inr h
    · exact Or.inl rfl
  · rintro (rfl | h)
    · exact Or.inr ⟨rfl, hk⟩
    · exact Or.inl h

theorem insert_inv {s s' : State ω key} {r : ρ} (h : step sem s (.insert r) = some s') :
    key r ∉ s.rows.keys ∧ s' = { s with rows := s.rows.insertIgnore r } := by
  simp only [step] at h
  split at h
  · exact absurd h (by simp)
  · rename_i hk
    exact ⟨hk, (Option.some.inj h).symm⟩

theorem begin_inv {s s' : State ω key} {t : Nat} {o : ω} {todo : List κ}
    (h : step sem s (.begin t o todo) = some s') :
    t ∉ s.opened.keys ∧ Scan sem s o todo ∧ s' = put s ⟨t, o, todo, []⟩ := by
  simp only [step] at h
  split at h
  · rename_i hc
    exact ⟨hc.1, hc.2, (Option.some.inj h).symm⟩
  · exact absurd h (by simp)

/-- **`visit`** pops a key: it is passed over, or its newest version satisfies `WHERE`, nobody
else holds it, and it is now held. -/
theorem visit_inv {s s' : State ω key} {t : Nat} (h : step sem s (.visit t) = some s') :
    ∃ o k rest, o ∈ s.opened ∧ o.tid = t ∧ o.todo = k :: rest ∧ full sem o = false ∧
      (s' = put s { o with todo := rest } ∨
        ∃ r ∈ s.rows, key r = k ∧ sem.cond o.op r = true ∧ lockedByOther s t k = false ∧
          s' = put s { o with todo := rest, held := k :: o.held }) := by
  simp only [step] at h
  obtain ⟨o, ho, h⟩ := Option.bind_eq_some_iff.mp h
  obtain ⟨o', ho', rfl⟩ := Option.map_eq_some_iff.mp h
  obtain ⟨hmem, rfl⟩ := Table.find?_eq_some.mp ho
  unfold visitNext at ho'
  split at ho'
  · exact absurd ho' (by simp)
  rename_i hfull
  cases htodo : o.todo with
  | nil => rw [htodo] at ho'; exact absurd ho' (by simp)
  | cons k rest =>
    rw [htodo] at ho'
    refine ⟨o, k, rest, hmem, rfl, htodo, by simpa using hfull, ?_⟩
    simp only at ho'
    split at ho'
    · split at ho'
      · exact Or.inl (congrArg (put s) (Option.some.inj ho').symm)
      · exact absurd ho' (by simp)
    · rename_i hlock
      split at ho'
      · rename_i r hr
        obtain ⟨hrm, hrk⟩ := Table.find?_eq_some.mp hr
        split at ho'
        · rename_i hcond
          exact Or.inr ⟨r, hrm, hrk, hcond, by simpa using hlock,
            congrArg (put s) (Option.some.inj ho').symm⟩
        · exact Or.inl (congrArg (put s) (Option.some.inj ho').symm)
      · exact Or.inl (congrArg (put s) (Option.some.inj ho').symm)

theorem commit_inv {s s' : State ω key} {t : Nat} (h : step sem s (.commit t) = some s') :
    ∃ o ∈ s.opened, o.tid = t ∧ MayCommit sem s o ∧
      s' = { rows := setRows sem o.op o.held s.rows, opened := s.opened.erase t } := by
  simp only [step] at h
  obtain ⟨o, ho, h⟩ := Option.bind_eq_some_iff.mp h
  obtain ⟨hmem, hk⟩ := Table.find?_eq_some.mp ho
  split at h
  · rename_i hc
    exact ⟨o, hmem, hk, hc, (Option.some.inj h).symm⟩
  · exact absurd h (by simp)

theorem abort_inv {s s' : State ω key} {t : Nat} (h : step sem s (.abort t) = some s') :
    s' = { s with opened := s.opened.erase t } := by
  simp only [step] at h
  split at h
  · exact (Option.some.inj h).symm
  · exact absurd h (by simp)

/-! ## The locks -/

/-- The lock invariant. -/
structure Locks (sem : Semantics ω key) (s : State ω key) : Prop where
  /-- A held row satisfies its holder's `WHERE` clause. -/
  cond : ∀ o ∈ s.opened, ∀ k ∈ o.held, ∃ r ∈ s.rows, key r = k ∧ sem.cond o.op r = true
  /-- A key is held by one statement at most. -/
  excl : ∀ o ∈ s.opened, ∀ o' ∈ s.opened, ∀ k, k ∈ o.held → k ∈ o'.held → o = o'

omit [DecidableEq κ] in
theorem locks_init (rows : Table key) : Locks sem ⟨rows, Table.empty⟩ :=
  ⟨fun o ho => absurd ho (Table.not_mem_empty o), fun o ho => absurd ho (Table.not_mem_empty o)⟩

theorem not_lockedByOther {s : State ω key} {t : Nat} {k : κ} (h : lockedByOther s t k = false)
    {o : Open ω κ} (ho : o ∈ s.opened) (ht : o.tid ≠ t) : k ∉ o.held := by
  intro hk
  unfold lockedByOther at h
  rw [List.any_eq_false] at h
  exact h o ho (by simp [ht, hk])

omit [DecidableEq κ] in
/-- Replacing a statement's entry by one that holds no more keys keeps the locks. -/
theorem Locks.put_sub {s : State ω key} (hl : Locks sem s) {o o' : Open ω κ} (ho : o ∈ s.opened)
    (hop : o'.op = o.op) (htid : o'.tid = o.tid) (hheld : ∀ k ∈ o'.held, k ∈ o.held) :
    Locks sem (put s o') := by
  constructor
  · intro x hx k hk
    rcases mem_put.mp hx with rfl | ⟨hx, -⟩
    · rw [hop]
      exact hl.cond o ho k (hheld k hk)
    · exact hl.cond x hx k hk
  · intro x hx y hy k hkx hky
    rcases mem_put.mp hx with ex | ⟨hx', hxt⟩ <;> rcases mem_put.mp hy with ey | ⟨hy', hyt⟩
    · rw [ex, ey]
    · rw [ex] at hkx
      exact absurd ((congrArg Open.tid (hl.excl y hy' o ho k hky (hheld k hkx))).trans htid.symm) hyt
    · rw [ey] at hky
      exact absurd ((congrArg Open.tid (hl.excl x hx' o ho k hkx (hheld k hky))).trans htid.symm) hxt
    · exact hl.excl x hx' y hy' k hkx hky

/-- `setRows` leaves the rows of other keys alone. -/
theorem mem_setRows_of_not {o : ω} {ks : List κ} {rows : Table key} {r : ρ} (hr : r ∈ rows)
    (hk : key r ∉ ks) : r ∈ setRows sem o ks rows :=
  (Table.mem_update _).mpr ⟨r, hr, by simp [hk]⟩

theorem mem_setRows {o : ω} {ks : List κ} {rows : Table key} {x : ρ} :
    x ∈ setRows sem o ks rows ↔
      ∃ r ∈ rows, x = if key r ∈ ks then (sem.set o r).getD r else r := by
  unfold setRows
  rw [Table.mem_update]
  simp only [decide_eq_true_eq]

/-- **The locks are kept by every step.** -/
theorem locks_step {s s' : State ω key} {a : Label ω ρ κ} (hl : Locks sem s)
    (h : step sem s a = some s') : Locks sem s' := by
  cases a with
  | insert r =>
    obtain ⟨-, rfl⟩ := insert_inv h
    refine ⟨fun o ho k hk => ?_, hl.excl⟩
    obtain ⟨x, hx, hxk, hc⟩ := hl.cond o ho k hk
    exact ⟨x, Table.mem_insertIgnore.mpr (Or.inl hx), hxk, hc⟩
  | begin t o todo =>
    obtain ⟨ht, -, rfl⟩ := begin_inv h
    refine ⟨fun x hx k hk => ?_, fun x hx y hy k hkx hky => ?_⟩
    · rcases mem_put.mp hx with rfl | ⟨hx, -⟩
      · exact absurd hk List.not_mem_nil
      · exact hl.cond x hx k hk
    · rcases mem_put.mp hx with rfl | ⟨hx, -⟩
      · exact absurd hkx List.not_mem_nil
      · rcases mem_put.mp hy with rfl | ⟨hy, -⟩
        · exact absurd hky List.not_mem_nil
        · exact hl.excl x hx y hy k hkx hky
  | visit t =>
    obtain ⟨o, k, rest, ho, rfl, -, -, rfl | ⟨r, hr, hrk, hc, hlock, rfl⟩⟩ := visit_inv h
    · exact hl.put_sub ho rfl rfl fun _ h => h
    · constructor
      · intro x hx k' hk'
        rcases mem_put.mp hx with rfl | ⟨hx, -⟩
        · rcases List.mem_cons.mp hk' with rfl | hk'
          · exact ⟨r, hr, hrk, hc⟩
          · exact hl.cond o ho k' hk'
        · exact hl.cond x hx k' hk'
      · -- the new key is held by nobody else, the old ones were exclusive
        have hnew : ∀ x ∈ s.opened, x.tid ≠ o.tid → ∀ k', k' ∈ x.held → k' ∉ k :: o.held := by
          intro x hx hxt k' hkx hk'
          rcases List.mem_cons.mp hk' with rfl | hk'
          · exact not_lockedByOther hlock hx hxt hkx
          · exact hxt (congrArg Open.tid (hl.excl x hx o ho k' hkx hk'))
        intro x hx y hy k' hkx hky
        rcases mem_put.mp hx with ex | ⟨hx', hxt⟩ <;> rcases mem_put.mp hy with ey | ⟨hy', hyt⟩
        · rw [ex, ey]
        · rw [ex] at hkx
          exact absurd hkx (hnew y hy' hyt k' hky)
        · rw [ey] at hky
          exact absurd hky (hnew x hx' hxt k' hkx)
        · exact hl.excl x hx' y hy' k' hkx hky
  | commit t =>
    obtain ⟨o, ho, rfl, -, rfl⟩ := commit_inv h
    constructor
    · intro x hx k hk
      obtain ⟨hx, hxt⟩ := Table.mem_erase.mp hx
      obtain ⟨r, hr, hrk, hc⟩ := hl.cond x hx k hk
      have hko : key r ∉ o.held := fun hko =>
        hxt (congrArg Open.tid (hl.excl x hx o ho k hk (hrk ▸ hko)))
      exact ⟨r, mem_setRows_of_not hr hko, hrk, hc⟩
    · intro x hx y hy k hkx hky
      exact hl.excl x (Table.mem_erase.mp hx).1 y (Table.mem_erase.mp hy).1 k hkx hky
  | abort t =>
    obtain rfl := abort_inv h
    exact ⟨fun x hx => hl.cond x (Table.mem_erase.mp hx).1, fun x hx y hy =>
      hl.excl x (Table.mem_erase.mp hx).1 y (Table.mem_erase.mp hy).1⟩

/-! ## What becomes of a row -/

/-- How one step can change a row: not at all, or by the commit of a statement that holds it,
whose `WHERE` clause it satisfies at that moment. -/
def RowStep (sem : Semantics ω key) (s : State ω key) (a : Label ω ρ κ) (r r' : ρ) : Prop :=
  (r' = r ∧ ∀ o ∈ s.opened, a = .commit o.tid → key r ∉ o.held) ∨
    ∃ o ∈ s.opened, a = .commit o.tid ∧ key r ∈ o.held ∧ sem.cond o.op r = true ∧
      sem.set o.op r = some r'

omit [DecidableEq κ] in
theorem RowStep.key_eq {s : State ω key} {a : Label ω ρ κ} {r r' : ρ} (h : RowStep sem s a r r') :
    key r' = key r := by
  rcases h with ⟨rfl, -⟩ | ⟨o, -, -, -, -, hset⟩
  · rfl
  · exact sem.set_key hset

/-- What `commit` does to one row. -/
theorem rowStep_commit {s : State ω key} (hl : Locks sem s) {o : Open ω κ} (ho : o ∈ s.opened)
    (hmay : MayCommit sem s o) {r : ρ} (hr : r ∈ s.rows) :
    RowStep sem s (.commit o.tid) r (if key r ∈ o.held then (sem.set o.op r).getD r else r) := by
  split
  · rename_i hk
    obtain ⟨x, hx, hxk, hc⟩ := hl.cond o ho (key r) hk
    obtain rfl := Table.eq_of_key hx hr hxk
    obtain ⟨x', hx'⟩ := Option.isSome_iff_exists.mp (hmay.2 x hr hk)
    exact Or.inr ⟨o, ho, rfl, hk, hc, by rw [hx']; rfl⟩
  · rename_i hk
    refine Or.inl ⟨rfl, fun x hx he => ?_⟩
    rw [Table.eq_of_key hx ho (Label.commit.inj he).symm]
    exact hk

/-- **No row is lost**: every row has a successor, and `RowStep` says which. -/
theorem row_next {s s' : State ω key} {a : Label ω ρ κ} (hl : Locks sem s)
    (h : step sem s a = some s') {r : ρ} (hr : r ∈ s.rows) :
    ∃ r' ∈ s'.rows, RowStep sem s a r r' := by
  have same : (∀ t, a ≠ .commit t) → RowStep sem s a r r := fun hne =>
    Or.inl ⟨rfl, fun o _ he => absurd he (hne o.tid)⟩
  cases a with
  | insert x =>
    obtain ⟨-, rfl⟩ := insert_inv h
    exact ⟨r, Table.mem_insertIgnore.mpr (Or.inl hr), same (by simp)⟩
  | begin t o todo =>
    obtain ⟨-, -, rfl⟩ := begin_inv h
    exact ⟨r, hr, same (by simp)⟩
  | visit t =>
    obtain ⟨o, k, rest, -, -, -, -, rfl | ⟨-, -, -, -, -, rfl⟩⟩ := visit_inv h <;>
      exact ⟨r, hr, same (by simp)⟩
  | commit t =>
    obtain ⟨o, ho, rfl, hmay, rfl⟩ := commit_inv h
    exact ⟨_, mem_setRows.mpr ⟨r, hr, rfl⟩, rowStep_commit hl ho hmay hr⟩
  | abort t =>
    obtain rfl := abort_inv h
    exact ⟨r, hr, same (by simp)⟩

/-- **Where a row comes from**: it was inserted by this step, under a free key, or it is the
successor of a row. -/
theorem row_origin {s s' : State ω key} {a : Label ω ρ κ} (hl : Locks sem s)
    (h : step sem s a = some s') {r' : ρ} (hr' : r' ∈ s'.rows) :
    (a = .insert r' ∧ key r' ∉ s.rows.keys) ∨ ∃ r ∈ s.rows, RowStep sem s a r r' := by
  by_cases hold : ∃ r ∈ s.rows, key r = key r'
  · obtain ⟨r, hr, hk⟩ := hold
    obtain ⟨x, hx, hstep⟩ := row_next hl h hr
    have : x = r' := Table.eq_of_key hx hr' (hstep.key_eq.trans hk)
    exact Or.inr ⟨r, hr, this ▸ hstep⟩
  · have hfree : key r' ∉ s.rows.keys := fun hm => hold (Table.mem_keys.mp hm)
    cases a with
    | insert x =>
      obtain ⟨-, rfl⟩ := insert_inv h
      rcases Table.mem_insertIgnore.mp hr' with hm | ⟨rfl, -⟩
      · exact absurd (Table.key_mem_keys hm) hfree
      · exact Or.inl ⟨rfl, hfree⟩
    | begin t o todo =>
      obtain ⟨-, -, rfl⟩ := begin_inv h
      exact absurd (Table.key_mem_keys hr') hfree
    | visit t =>
      obtain ⟨o, k, rest, -, -, -, -, rfl | ⟨-, -, -, -, -, rfl⟩⟩ := visit_inv h <;>
        exact absurd (Table.key_mem_keys hr') hfree
    | commit t =>
      obtain ⟨o, -, -, -, rfl⟩ := commit_inv h
      unfold setRows at hr'
      have := Table.key_mem_keys hr'
      rw [Table.keys_update] at this
      exact absurd this hfree
    | abort t =>
      obtain rfl := abort_inv h
      exact absurd (Table.key_mem_keys hr') hfree

/-- **The open statements**: one that is open after a step was open before it, or has just
started. -/
theorem opened_origin {s s' : State ω key} {a : Label ω ρ κ} (h : step sem s a = some s')
    {o' : Open ω κ} (ho' : o' ∈ s'.opened) :
    (∃ todo, a = .begin o'.tid o'.op todo) ∨
      a.begins o'.tid = false ∧ ∃ o ∈ s.opened, o.tid = o'.tid ∧ o.op = o'.op := by
  cases a with
  | insert r =>
    obtain ⟨-, rfl⟩ := insert_inv h
    exact Or.inr ⟨rfl, o', ho', rfl, rfl⟩
  | begin t o todo =>
    obtain ⟨hnew, -, rfl⟩ := begin_inv h
    rcases mem_put.mp ho' with rfl | ⟨ho, hne⟩
    · exact Or.inl ⟨todo, rfl⟩
    · exact Or.inr ⟨decide_eq_false (Ne.symm hne), o', ho, rfl, rfl⟩
  | visit t =>
    obtain ⟨o, k, rest, ho, -, -, -, rfl | ⟨-, -, -, -, -, rfl⟩⟩ := visit_inv h <;>
    · rcases mem_put.mp ho' with rfl | ⟨ho', -⟩
      · exact Or.inr ⟨rfl, o, ho, rfl, rfl⟩
      · exact Or.inr ⟨rfl, o', ho', rfl, rfl⟩
  | commit t =>
    obtain ⟨o, -, -, -, rfl⟩ := commit_inv h
    exact Or.inr ⟨rfl, o', (Table.mem_erase.mp ho').1, rfl, rfl⟩
  | abort t =>
    obtain rfl := abort_inv h
    exact Or.inr ⟨rfl, o', (Table.mem_erase.mp ho').1, rfl, rfl⟩

/-- A property of statements that every `begin` respects holds of every open statement. -/
theorem opened_op {P : ω → Prop} {s s' : State ω key} {a : Label ω ρ κ}
    (hs : ∀ o ∈ s.opened, P o.op) (hbegin : ∀ t o todo, a = .begin t o todo → P o)
    (h : step sem s a = some s') : ∀ o ∈ s'.opened, P o.op := by
  intro o' ho'
  rcases opened_origin h ho' with ⟨todo, ha⟩ | ⟨-, o, ho, -, he⟩
  · exact hbegin _ _ _ ha
  · exact he ▸ hs o ho

/-- **The limit**: no statement locks more rows than its `LIMIT`. -/
theorem held_le_limit {s s' : State ω key} {a : Label ω ρ κ}
    (hs : ∀ o ∈ s.opened, ∀ n, sem.limit o.op = some n → o.held.length ≤ n)
    (h : step sem s a = some s') :
    ∀ o ∈ s'.opened, ∀ n, sem.limit o.op = some n → o.held.length ≤ n := by
  cases a with
  | insert r => obtain ⟨-, rfl⟩ := insert_inv h; exact hs
  | begin t o todo =>
    obtain ⟨-, -, rfl⟩ := begin_inv h
    intro x hx n hn
    rcases mem_put.mp hx with rfl | ⟨hx, -⟩
    · exact Nat.zero_le n
    · exact hs x hx n hn
  | visit t =>
    obtain ⟨o, k, rest, ho, -, -, hfull, rfl | ⟨-, -, -, -, -, rfl⟩⟩ := visit_inv h
    · intro x hx n hn
      rcases mem_put.mp hx with rfl | ⟨hx, -⟩
      · exact hs o ho n hn
      · exact hs x hx n hn
    · intro x hx n hn
      rcases mem_put.mp hx with rfl | ⟨hx, -⟩
      · simp only at hn
        unfold full at hfull
        rw [hn] at hfull
        have : ¬n ≤ o.held.length := by simpa using hfull
        rw [List.length_cons]
        omega
      · exact hs x hx n hn
  | commit t =>
    obtain ⟨o, -, -, -, rfl⟩ := commit_inv h
    exact fun x hx => hs x (Table.mem_erase.mp hx).1
  | abort t =>
    obtain rfl := abort_inv h
    exact fun x hx => hs x (Table.mem_erase.mp hx).1

end ReadCommitted
