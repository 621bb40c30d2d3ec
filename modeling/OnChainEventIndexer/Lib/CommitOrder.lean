import OnChainEventIndexer.Lib.ReadCommitted

/-!
# What a commit does

Between the snapshot of a statement and its commit, others commit. At its commit it still does what
it would do if it were executed alone at that moment, on the rows that are there by then, provided it
has overlooked none of them.

* `Sees`: every row that satisfies the `WHERE` clause is still to visit, or held. So it is at the
  beginning, and so it stays (`sees_step`) but for the steps that `Overlooks` names: a row comes in,
  or comes to satisfy the clause, or is passed over.
* `held_iff`: at the end of the scan the rows held are those that satisfy the clause. So `SET` is
  applied to them (`setRows_eq`), and as many are reported (`length_held`).
-/

namespace ReadCommitted

open Keyed

variable {ω ρ κ : Type} [DecidableEq κ] {key : ρ → κ} (sem : Semantics ω key)

/-- The statement has not overlooked a row. -/
def Sees (rows : Table key) (o : Open ω κ) : Prop :=
  ∀ r ∈ rows, sem.cond o.op r = true → key r ∈ o.todo ∨ key r ∈ o.held

/-- The step makes the statement overlook a row. -/
def Overlooks (s : State ω key) (o : Open ω κ) : Label ω ρ κ → Prop
  | .insert r => sem.cond o.op r = true
  | .visit t => t = o.tid ∧ sem.skipLocked o.op = true ∧
      ∃ k, o.todo.head? = some k ∧ lockedByOther s t k = true
  | .commit t => ∃ x ∈ s.opened, x.tid = t ∧ x.tid ≠ o.tid ∧ ∃ r ∈ s.rows, ∃ r',
      sem.cond x.op r = true ∧ sem.set x.op r = some r' ∧
        sem.cond o.op r = false ∧ sem.cond o.op r' = true
  | .begin _ _ _ => False
  | .abort _ => False

/-- No key twice. -/
def Fresh (o : Open ω κ) : Prop := (o.todo ++ o.held).Nodup

variable {sem} {s s' : State ω key} {a : Label ω ρ κ} {o : Open ω κ}

theorem lockedByOther_eq_true {t : Nat} {k : κ} :
    lockedByOther s t k = true ↔ ∃ x ∈ s.opened, x.tid ≠ t ∧ k ∈ x.held := by
  unfold lockedByOther
  simp only [List.any_eq_true, Bool.and_eq_true, decide_eq_true_eq, Table.mem_rows]

/-! ## From the snapshot on -/

omit [DecidableEq κ] in
theorem Sees.of_rows {rows rows' : Table key} (h : Sees sem rows o)
    (hrows : ∀ r ∈ rows', sem.cond o.op r = true → r ∈ rows) : Sees sem rows' o :=
  fun r hr hc => h r (hrows r hr hc) hc

theorem Scan.mem {op : ω} {todo : List κ} (h : Scan sem s op todo) {r : ρ} (hr : r ∈ s.rows)
    (hc : sem.cond op r = true) : key r ∈ todo :=
  h.1.mem_iff.mpr (List.mem_map_of_mem (List.mem_filter.mpr ⟨hr, hc⟩))

theorem Scan.nodup {op : ω} {todo : List κ} (h : Scan sem s op todo) : todo.Nodup :=
  h.1.nodup_iff.mpr ((List.filter_sublist.map key).nodup s.rows.nodup)

/-- **`visit`**, with the reason why a key is passed over. -/
theorem visit_cases {t : Nat} (h : step sem s (.visit t) = some s') :
    ∃ o k rest, o ∈ s.opened ∧ o.tid = t ∧ o.todo = k :: rest ∧ full sem o = false ∧
      ((lockedByOther s t k = true ∧ sem.skipLocked o.op = true ∧
          s' = put s { o with todo := rest }) ∨
        ((∀ r ∈ s.rows, key r = k → sem.cond o.op r = false) ∧ s' = put s { o with todo := rest }) ∨
        ∃ r ∈ s.rows, key r = k ∧ sem.cond o.op r = true ∧
          s' = put s { o with todo := rest, held := k :: o.held }) := by
  simp only [step] at h
  obtain ⟨o, ho, h⟩ := Option.bind_eq_some_iff.mp h
  obtain ⟨o', ho', rfl⟩ := Option.map_eq_some_iff.mp h
  obtain ⟨hmem, rfl⟩ := Table.find?_eq_some.mp ho
  unfold visitNext at ho'
  split at ho'
  · exact absurd ho' (by simp)
  rename_i hfull
  cases htodo : o.todo with
  | nil => rw [htodo] at ho'; exact absurd ho' (by simp)
  | cons k rest =>
    rw [htodo] at ho'
    refine ⟨o, k, rest, hmem, rfl, htodo, Bool.eq_false_iff.mpr hfull, ?_⟩
    simp only at ho'
    split at ho'
    · rename_i hlock
      obtain ⟨hskip, ho'⟩ := Option.ite_none_right_eq_some.mp ho'
      exact Or.inl ⟨hlock, hskip, congrArg (put s) (Option.some.inj ho').symm⟩
    · split at ho'
      · rename_i r hr
        obtain ⟨hrm, hrk⟩ := Table.find?_eq_some.mp hr
        split at ho'
        · rename_i hcond
          exact Or.inr (Or.inr ⟨r, hrm, hrk, hcond, congrArg (put s) (Option.some.inj ho').symm⟩)
        · rename_i hcond
          refine Or.inr (Or.inl ⟨fun x hx hk => ?_, congrArg (put s) (Option.some.inj ho').symm⟩)
          rw [Table.eq_of_key hx hrm (hk.trans hrk.symm)]
          exact Bool.eq_false_iff.mpr hcond
      · rename_i hnone
        exact Or.inr (Or.inl ⟨fun x hx hk => absurd hk (Table.find?_eq_none.mp hnone x hx),
          congrArg (put s) (Option.some.inj ho').symm⟩)

/-- **A statement that overlooks nothing in a step** has still overlooked nothing after it. -/
theorem sees_step {P : ω → Prop} (hl : Locks sem s) (hs : ∀ o ∈ s.opened, P o.op → Sees sem s.rows o)
    (h : step sem s a = some s') (hno : ∀ o ∈ s.opened, P o.op → ¬Overlooks sem s o a) :
    ∀ o ∈ s'.opened, P o.op → Sees sem s'.rows o := by
  cases a with
  | insert r =>
    obtain ⟨-, rfl⟩ := insert_inv h
    intro o ho hp
    refine (hs o ho hp).of_rows fun x hx hc => ?_
    rcases Table.mem_insertIgnore.mp hx with hx | ⟨rfl, -⟩
    · exact hx
    · exact absurd hc (hno o ho hp)
  | begin t op todo =>
    obtain ⟨-, hscan, rfl⟩ := begin_inv h
    intro o ho hp
    rcases mem_put.mp ho with rfl | ⟨ho, -⟩
    · exact fun r hr hc => Or.inl (hscan.mem hr hc)
    · exact hs o ho hp
  | visit t =>
    obtain ⟨x, k, rest, hx, rfl, htodo, -, hcase⟩ := visit_cases h
    -- the others are as they were
    have others : ∀ x' : Open ω κ, x'.tid = x.tid → (P x'.op → Sees sem s.rows x') →
        ∀ o ∈ (put s x').opened, P o.op → Sees sem s.rows o := by
      intro x' hid hx' o ho hp
      rcases mem_put.mp ho with rfl | ⟨ho, -⟩
      · exact hx' hp
      · exact hs o ho hp
    rcases hcase with ⟨hlock, hskip, rfl⟩ | ⟨hfalse, rfl⟩ | ⟨r, hr, hrk, hc, rfl⟩
    · refine others { x with todo := rest } rfl fun hp => ?_
      exact absurd ⟨rfl, hskip, k, by rw [htodo]; rfl, hlock⟩ (hno x hx hp)
    · refine others { x with todo := rest } rfl fun hp y hy hcy => ?_
      rcases hs x hx hp y hy hcy with hk | hk
      · rw [htodo] at hk
        rcases List.mem_cons.mp hk with hk | hk
        · exact absurd hcy (Bool.eq_false_iff.mp (hfalse y hy hk))
        · exact Or.inl hk
      · exact Or.inr hk
    · refine others { x with todo := rest, held := k :: x.held } rfl fun hp y hy hcy => ?_
      rcases hs x hx hp y hy hcy with hk | hk
      · rw [htodo] at hk
        rcases List.mem_cons.mp hk with hk | hk
        · exact Or.inr (List.mem_cons.mpr (Or.inl hk))
        · exact Or.inl hk
      · exact Or.inr (List.mem_cons_of_mem _ hk)
  | commit t =>
    obtain ⟨x, hx, rfl, hmay, rfl⟩ := commit_inv h
    intro o ho' hp y' hy' hc'
    obtain ⟨ho, hne⟩ := Table.mem_erase.mp ho'
    rcases row_origin hl h hy' with ⟨he, -⟩ | ⟨y, hy, hrow⟩
    · exact absurd he (by simp)
    · rw [hrow.key_eq]
      rcases hrow with ⟨rfl, -⟩ | ⟨z, hz, he, -, hcz, hset⟩
      · exact hs o ho hp y' hy hc'
      · obtain rfl := Table.eq_of_key hz hx (Label.commit.inj he).symm
        cases hc : sem.cond o.op y with
        | true => exact hs o ho hp y hy hc
        | false =>
          exact absurd ⟨z, hz, rfl, fun hid => hne hid.symm, y, hy, y', hcz, hset, hc, hc'⟩
            (hno o ho hp)
  | abort t =>
    obtain rfl := abort_inv h
    exact fun o ho hp => hs o (Table.mem_erase.mp ho).1 hp

theorem fresh_step (hs : ∀ o ∈ s.opened, Fresh o) (h : step sem s a = some s') :
    ∀ o ∈ s'.opened, Fresh o := by
  have others : ∀ x : Open ω κ, Fresh x → ∀ o ∈ (put s x).opened, Fresh o := by
    intro x hx o ho
    rcases mem_put.mp ho with rfl | ⟨ho, -⟩
    · exact hx
    · exact hs o ho
  cases a with
  | insert r => obtain ⟨-, rfl⟩ := insert_inv h; exact hs
  | begin t op todo =>
    obtain ⟨-, hscan, rfl⟩ := begin_inv h
    refine others _ ?_
    unfold Fresh
    rw [List.append_nil]
    exact hscan.nodup
  | visit t =>
    obtain ⟨x, k, rest, hx, rfl, htodo, -, hcase⟩ := visit_inv h
    have hnd : (k :: (rest ++ x.held)).Nodup := by
      have := hs x hx
      unfold Fresh at this
      rw [htodo] at this
      exact this
    rcases hcase with rfl | ⟨r, -, -, -, -, rfl⟩
    · exact others _ (List.nodup_cons.mp hnd).2
    · exact others _ (List.nodup_middle.mpr hnd)
  | commit t =>
    obtain ⟨x, -, -, -, rfl⟩ := commit_inv h
    exact fun o ho => hs o (Table.mem_erase.mp ho).1
  | abort t =>
    obtain rfl := abort_inv h
    exact fun o ho => hs o (Table.mem_erase.mp ho).1

/-- An open statement has begun in this step, or was open before. -/
theorem opened_next (h : step sem s a = some s') :
    ∀ o' ∈ s'.opened, (a = .begin o'.tid o'.op o'.todo ∧ Scan sem s o'.op o'.todo) ∨
      ∃ o ∈ s.opened, o.tid = o'.tid ∧ o.op = o'.op ∧ ∀ k ∈ o'.todo, k ∈ o.todo := by
  have same : ∀ o ∈ s.opened, ∃ x ∈ s.opened, x.tid = o.tid ∧ x.op = o.op ∧
    ∀ k ∈ o.todo, k ∈ x.todo :=
    fun o ho => ⟨o, ho, rfl, rfl, fun _ hk => hk⟩
  intro o' ho'
  cases a with
  | insert r => obtain ⟨-, rfl⟩ := insert_inv h; exact Or.inr (same o' ho')
  | begin t op todo =>
    obtain ⟨-, hscan, rfl⟩ := begin_inv h
    rcases mem_put.mp ho' with rfl | ⟨ho', -⟩
    · exact Or.inl ⟨rfl, hscan⟩
    · exact Or.inr (same o' ho')
  | visit t =>
    obtain ⟨x, k, rest, hx, rfl, htodo, -, rfl | ⟨r, -, -, -, -, rfl⟩⟩ := visit_inv h <;>
    · rcases mem_put.mp ho' with rfl | ⟨ho', -⟩
      · exact Or.inr ⟨x, hx, rfl, rfl, fun k hk => htodo ▸ List.mem_cons_of_mem _ hk⟩
      · exact Or.inr (same o' ho')
  | commit t =>
    obtain ⟨x, -, -, -, rfl⟩ := commit_inv h
    exact Or.inr (same o' (Table.mem_erase.mp ho').1)
  | abort t =>
    obtain rfl := abort_inv h
    exact Or.inr (same o' (Table.mem_erase.mp ho').1)

/-- A statement that neither commits nor is aborted stays open. -/
theorem opened_stays (h : step sem s a = some s') (ho : o ∈ s.opened) (hcommit : a ≠ .commit o.tid)
    (habort : a ≠ .abort o.tid) : ∃ o' ∈ s'.opened, o'.tid = o.tid ∧ o'.op = o.op := by
  cases a with
  | insert r => obtain ⟨-, rfl⟩ := insert_inv h; exact ⟨o, ho, rfl, rfl⟩
  | begin t op todo =>
    obtain ⟨hfresh, -, rfl⟩ := begin_inv h
    refine ⟨o, mem_put.mpr (Or.inr ⟨ho, fun hid => hfresh ?_⟩), rfl, rfl⟩
    exact Table.mem_keys.mpr ⟨o, ho, hid⟩
  | visit t =>
    have hput : ∀ x ∈ s.opened, ∀ x' : Open ω κ, x'.tid = x.tid → x'.op = x.op →
        ∃ o' ∈ (put s x').opened, o'.tid = o.tid ∧ o'.op = o.op := by
      intro x hx x' hid hop
      by_cases he : o.tid = x.tid
      · obtain rfl := Table.eq_of_key ho hx he
        exact ⟨x', mem_put.mpr (Or.inl rfl), hid, hop⟩
      · exact ⟨o, mem_put.mpr (Or.inr ⟨ho, fun h => he (h.trans hid)⟩), rfl, rfl⟩
    obtain ⟨x, k, rest, hx, -, -, -, rfl | ⟨r, -, -, -, -, rfl⟩⟩ := visit_inv h
    · exact hput x hx { x with todo := rest } rfl rfl
    · exact hput x hx { x with todo := rest, held := k :: x.held } rfl rfl
  | commit t =>
    obtain ⟨x, -, rfl, -, rfl⟩ := commit_inv h
    exact ⟨o, Table.mem_erase.mpr ⟨ho, fun he => hcommit (congrArg _ he.symm)⟩, rfl, rfl⟩
  | abort t =>
    obtain rfl := abort_inv h
    exact ⟨o, Table.mem_erase.mpr ⟨ho, fun he => habort (congrArg _ he.symm)⟩, rfl, rfl⟩

/-! ## At the end of the scan -/

omit [DecidableEq κ] in
/-- A held row satisfies the clause. -/
theorem cond_of_held (hl : Locks sem s) (ho : o ∈ s.opened) {r : ρ} (hr : r ∈ s.rows)
    (hk : key r ∈ o.held) : sem.cond o.op r = true := by
  obtain ⟨x, hx, hxk, hc⟩ := hl.cond o ho _ hk
  rw [← Table.eq_of_key hx hr hxk]
  exact hc

omit [DecidableEq κ] in
/-- **The rows held are those that satisfy the clause.** -/
theorem held_iff (hl : Locks sem s) (ho : o ∈ s.opened) (hsees : Sees sem s.rows o)
    (hdone : o.todo = []) {r : ρ} (hr : r ∈ s.rows) :
    key r ∈ o.held ↔ sem.cond o.op r = true := by
  refine ⟨cond_of_held hl ho hr, fun hc => ?_⟩
  rcases hsees r hr hc with hk | hk
  · rw [hdone] at hk
    exact absurd hk List.not_mem_nil
  · exact hk

/-- The rows held, of those there are. -/
theorem held_perm (hl : Locks sem s) (ho : o ∈ s.opened) (hfresh : Fresh o) :
    o.held.Perm ((s.rows.rows.filter fun r => key r ∈ o.held).map key) := by
  refine (List.perm_ext_iff_of_nodup (List.nodup_append.mp hfresh).2.1
    ((List.filter_sublist.map key).nodup s.rows.nodup)).mpr fun k => ?_
  simp only [List.mem_map, List.mem_filter, decide_eq_true_eq]
  constructor
  · intro hk
    obtain ⟨r, hr, rfl, -⟩ := hl.cond o ho k hk
    exact ⟨r, ⟨hr, hk⟩, rfl⟩
  · rintro ⟨r, ⟨-, hk⟩, rfl⟩
    exact hk

/-- As many rows are affected as when the statement is executed alone. -/
theorem length_held (hl : Locks sem s) (ho : o ∈ s.opened) (hfresh : Fresh o)
    (hsees : Sees sem s.rows o) (hdone : o.todo = []) :
    o.held.length = s.rows.affected (sem.cond o.op) := by
  rw [(held_perm hl ho hfresh).length_eq, List.length_map, ← List.countP_eq_length_filter]
  refine List.countP_congr fun r hr => ?_
  rw [decide_eq_true_eq]
  exact held_iff hl ho hsees hdone hr

/-- `SET` on the rows with a key in `ks`, by a clause that says which these are. -/
theorem setRows_eq_update {op : ω} {ks : List κ} {rows : Table key} {p : ρ → Bool} {f : ρ → ρ}
    (hf : ∀ r, key (f r) = key r) (hks : ∀ r ∈ rows, key r ∈ ks ↔ p r = true)
    (hset : ∀ r, sem.set op r = some (f r)) : setRows sem op ks rows = rows.update p f hf := by
  refine Table.update_congr fun r hr => ?_
  have hiff : decide (key r ∈ ks) = p r := by
    rw [Bool.eq_iff_iff, decide_eq_true_eq]
    exact hks r hr
  rw [hiff, hset, Option.getD_some]

/-- `SET` on one row, in its place. -/
theorem rows_setRows_one {op : ω} {rows : Table key} {before after : List ρ} {r r' : ρ}
    (hrows : rows.rows = before ++ r :: after) (hset : sem.set op r = some r') :
    (setRows sem op [key r] rows).rows = before ++ r' :: after := by
  have hone := Table.rows_update_one (p := fun x => key x ∈ [key r])
    (f := fun x => (sem.set op x).getD x) (fun x => ?_) hrows fun x _ => by
      rw [decide_eq_true_eq, List.mem_singleton]
  · rw [hset, Option.getD_some] at hone
    exact hone
  · cases hx : sem.set op x with
    | none => rfl
    | some x' => exact sem.set_key hx

/-- **The rows are those that the statement executed alone leaves.** -/
theorem setRows_eq (hl : Locks sem s) (ho : o ∈ s.opened) (hsees : Sees sem s.rows o)
    (hdone : o.todo = []) {f : ρ → ρ} (hf : ∀ r, key (f r) = key r)
    (hset : ∀ r, sem.set o.op r = some (f r)) :
    setRows sem o.op o.held s.rows = s.rows.update (sem.cond o.op) f hf :=
  setRows_eq_update hf (fun _ hr => held_iff hl ho hsees hdone hr) hset

end ReadCommitted
