import OnChainEventIndexer.Lib.Table
import Mathlib.Data.List.MinMax
import Mathlib.Data.List.Sort

/-!
# `ROW_NUMBER() OVER (PARTITION BY … ORDER BY …)`

The rows of a partition are sorted, and numbered from 1. The order is total on the rows here, so
that the numbers are determined (`hinj`: rows that do not differ in it are the same).

* `rowNumber_eq`: the number of a row is one more than the rows of its partition before it.
* `keepFirst`: delete the rows with a number above 1. `mem_keepFirst`: what stays are the first rows
  of the partitions (`IsFirst`); there is one for each (`existsUnique_keepFirst`), so no two rows
  that stay are in one partition (`nodup_keepFirst`), and nothing is left to delete
  (`keepFirst_keepFirst`).
-/

namespace Keyed

variable {ρ κ π α : Type} [DecidableEq ρ] [DecidableEq π] [LinearOrder α]

/-- The number of `r` among `rows`. -/
def rowNumber (partition : ρ → π) (order : ρ → α) (rows : List ρ) (r : ρ) : Nat :=
  ((rows.filter fun x => partition x = partition r).insertionSort
    fun x y => order x ≤ order y).idxOf r + 1

variable {partition : ρ → π} {order : ρ → α}

omit [DecidableEq π] in
/-- In a sorted list the position of an element is the number of those before it. -/
theorem idxOf_of_sorted {l : List ρ} (hs : l.Pairwise fun x y => order x ≤ order y)
    (hinj : ∀ x ∈ l, ∀ y ∈ l, order x = order y → x = y) {r : ρ} (hr : r ∈ l) :
    l.idxOf r = l.countP fun x => order x < order r := by
  induction l with
  | nil => exact absurd hr List.not_mem_nil
  | cons a l ih =>
    obtain ⟨hle, hs⟩ := List.pairwise_cons.mp hs
    by_cases ha : a = r
    · subst ha
      have hnone : (a :: l).countP (fun x => order x < order a) = 0 := by
        refine List.countP_eq_zero.mpr fun x hx => ?_
        rcases List.mem_cons.mp hx with rfl | hx
        · simp
        · simpa using hle x hx
      rw [List.idxOf_cons_self, hnone]
    · have hmem : r ∈ l := (List.mem_cons.mp hr).resolve_left fun h => ha h.symm
      have hlt : order a < order r := lt_of_le_of_ne (hle r hmem) fun h =>
        ha (hinj a List.mem_cons_self r hr h)
      rw [List.idxOf_cons_ne _ ha, List.countP_cons_of_pos (by simpa using hlt),
        ih hs (fun x hx y hy => hinj x (List.mem_cons_of_mem _ hx) y
          (List.mem_cons_of_mem _ hy)) hmem]

/-- **The number of a row.** -/
theorem rowNumber_eq {rows : List ρ} (hinj : ∀ x ∈ rows, ∀ y ∈ rows, order x = order y → x = y)
    {r : ρ} (hr : r ∈ rows) : rowNumber partition order rows r =
      (rows.countP fun x => order x < order r ∧ partition x = partition r) + 1 := by
  have hmem : ∀ {x}, x ∈ (rows.filter fun x => partition x = partition r).insertionSort
      (fun x y => order x ≤ order y) → x ∈ rows := fun hx =>
    (List.mem_filter.mp ((List.mem_insertionSort _).mp hx)).1
  have hpos := idxOf_of_sorted (List.pairwise_insertionSort (fun x y => order x ≤ order y)
      (rows.filter fun x => partition x = partition r))
    (fun x hx y hy => hinj x (hmem hx) y (hmem hy))
    ((List.mem_insertionSort _).mpr (List.mem_filter.mpr ⟨hr, decide_eq_true rfl⟩))
  unfold rowNumber
  rw [hpos, (List.perm_insertionSort _ _).countP_eq, List.countP_filter]
  simp only [Bool.decide_and]

theorem one_lt_rowNumber {rows : List ρ} (hinj : ∀ x ∈ rows, ∀ y ∈ rows, order x = order y → x = y)
    {r : ρ} (hr : r ∈ rows) : 1 < rowNumber partition order rows r ↔
      ∃ x ∈ rows, order x < order r ∧ partition x = partition r := by
  rw [rowNumber_eq hinj hr, Nat.lt_add_left_iff_pos, List.countP_pos_iff]
  simp only [decide_eq_true_eq]

namespace Table

variable {key : ρ → κ} {t : Table key}

/-- A row no other one of its partition comes before. -/
def IsFirst (partition : ρ → π) (order : ρ → α) (t : Table key) (r : ρ) : Prop :=
  r ∈ t ∧ ∀ x ∈ t, partition x = partition r → order r ≤ order x

omit [DecidableEq ρ] [DecidableEq π] in
theorem IsFirst.unique (hinj : ∀ x ∈ t, ∀ y ∈ t, order x = order y → x = y) {r x : ρ}
    (hr : IsFirst partition order t r) (hx : IsFirst partition order t x)
    (h : partition x = partition r) : x = r :=
  hinj x hx.1 r hr.1 (le_antisymm (hx.2 r hr.1 h.symm) (hr.2 x hx.1 h))

omit [DecidableEq ρ] in
theorem exists_isFirst (partition : ρ → π) (order : ρ → α) {r : ρ} (hr : r ∈ t) :
    ∃ x, IsFirst partition order t x ∧ partition x = partition r := by
  have hmem : r ∈ t.rows.filter fun x => partition x = partition r :=
    List.mem_filter.mpr ⟨hr, decide_eq_true rfl⟩
  cases hmin : (t.rows.filter fun x => partition x = partition r).argmin order with
  | none => exact absurd (List.argmin_eq_none.mp hmin ▸ hmem) List.not_mem_nil
  | some x =>
    obtain ⟨hx, hp⟩ := List.mem_filter.mp (List.argmin_mem hmin)
    have hp := of_decide_eq_true hp
    refine ⟨x, ⟨hx, fun y hy hyx => ?_⟩, hp⟩
    exact List.le_of_mem_argmin (List.mem_filter.mpr ⟨hy, decide_eq_true (hyx.trans hp)⟩) hmin

/-- Delete the rows with a number above 1. -/
def keepFirst (partition : ρ → π) (order : ρ → α) (t : Table key) : Table key :=
  t.delete fun r => 1 < rowNumber partition order t.rows r

/-- **What stays.** -/
theorem mem_keepFirst (hinj : ∀ x ∈ t, ∀ y ∈ t, order x = order y → x = y) {r : ρ} :
    r ∈ t.keepFirst partition order ↔ IsFirst partition order t r := by
  unfold keepFirst IsFirst
  rw [mem_delete, decide_eq_false_iff_not]
  refine and_congr_right fun hr => ?_
  rw [one_lt_rowNumber hinj hr]
  constructor
  · exact fun h x hx hp => le_of_not_gt fun hlt => h ⟨x, hx, hlt, hp⟩
  · exact fun h ⟨x, hx, hlt, hp⟩ => not_lt_of_ge (h x hx hp) hlt

/-- **One row of each partition.** -/
theorem existsUnique_keepFirst (hinj : ∀ x ∈ t, ∀ y ∈ t, order x = order y → x = y) {r : ρ}
    (hr : r ∈ t) : ∃! x, x ∈ t.keepFirst partition order ∧ partition x = partition r := by
  obtain ⟨x, hx, hp⟩ := exists_isFirst partition order hr
  refine ⟨x, ⟨(mem_keepFirst hinj).mpr hx, hp⟩, fun y ⟨hy, hyp⟩ => ?_⟩
  exact hx.unique hinj ((mem_keepFirst hinj).mp hy) (hyp.trans hp.symm)

theorem nodup_keepFirst (hinj : ∀ x ∈ t, ∀ y ∈ t, order x = order y → x = y) :
    ((t.keepFirst partition order).rows.map partition).Nodup := by
  refine (List.nodup_map_iff_inj_on (rows_nodup _)).mpr fun x hx y hy hp => ?_
  exact ((mem_keepFirst hinj).mp hy).unique hinj ((mem_keepFirst hinj).mp hx) hp

/-- **Once is enough.** -/
theorem keepFirst_keepFirst (hinj : ∀ x ∈ t, ∀ y ∈ t, order x = order y → x = y) :
    (t.keepFirst partition order).keepFirst partition order = t.keepFirst partition order := by
  have hsub : ∀ {x}, x ∈ t.keepFirst partition order → x ∈ t := fun hx => (mem_delete.mp hx).1
  refine delete_eq_self fun r hr => decide_eq_false ?_
  rw [one_lt_rowNumber (fun x hx y hy => hinj x (hsub hx) y (hsub hy)) hr]
  rintro ⟨x, hx, hlt, hp⟩
  exact not_lt_of_ge (((mem_keepFirst hinj).mp hr).2 x (hsub hx) hp) hlt

end Table

end Keyed
