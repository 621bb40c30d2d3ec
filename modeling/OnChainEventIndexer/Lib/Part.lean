import OnChainEventIndexer.Lib.Table
import Mathlib.Data.Set.Image

/-!
# Parts of a table

The rows of a table that satisfy `p` are a part of it, `t.part p`: the rows of one owner, say. The
part is a set, so two tables with the same part may differ in everything else.

* A statement that concerns rows outside the part leaves it as it is: `part_update_of_not`,
  `part_insertAll_of_not`.
* What a statement on rows of the part does to it, and the count it reports, are the same in any two
  tables with that part: `part_update_congr`, `affected_congr`, `part_insertAll_congr`,
  `inserted_congr`.
-/

namespace Keyed

namespace Table

variable {ρ κ : Type} {key : ρ → κ} {p : ρ → Prop} {t t' : Table key}

/-- The rows with `p`. -/
def part (t : Table key) (p : ρ → Prop) : Set ρ := {r | r ∈ t ∧ p r}

theorem mem_part {r : ρ} : r ∈ t.part p ↔ r ∈ t ∧ p r := Iff.rfl

theorem mem_congr (h : t.part p = t'.part p) {r : ρ} (hr : p r) : r ∈ t ↔ r ∈ t' := by
  have hiff : r ∈ t.part p ↔ r ∈ t'.part p := by rw [h]
  rw [mem_part, mem_part] at hiff
  exact ⟨fun hm => (hiff.mp ⟨hm, hr⟩).1, fun hm => (hiff.mpr ⟨hm, hr⟩).1⟩

/-! ## Updates -/

variable {w : ρ → Bool} {f : ρ → ρ}

/-- An update that moves no row into the part or out of it updates the part. -/
theorem part_update (hf : ∀ r, key (f r) = key r) (hp : ∀ r, p (f r) ↔ p r) :
    (t.update w f hf).part p = Set.image (fun r => if w r then f r else r) (t.part p) := by
  have hmove : ∀ r, p (if w r then f r else r) ↔ p r := by
    intro r
    split
    · exact hp r
    · exact Iff.rfl
  ext x
  rw [mem_part, mem_update hf]
  constructor
  · rintro ⟨⟨r, hr, rfl⟩, hx⟩
    exact ⟨r, ⟨hr, (hmove r).mp hx⟩, rfl⟩
  · rintro ⟨r, ⟨hr, hpr⟩, rfl⟩
    exact ⟨⟨r, hr, rfl⟩, (hmove r).mpr hpr⟩

theorem part_update_congr (hf : ∀ r, key (f r) = key r) (hp : ∀ r, p (f r) ↔ p r)
    (h : t.part p = t'.part p) : (t.update w f hf).part p = (t'.update w f hf).part p := by
  rw [part_update hf hp, part_update hf hp, h]

theorem part_update_of_not (hf : ∀ r, key (f r) = key r) (hp : ∀ r, p (f r) ↔ p r)
    (hw : ∀ r, w r = true → ¬p r) : (t.update w f hf).part p = t.part p := by
  have hid : ∀ r ∈ t.part p, (if w r then f r else r) = r := fun r hr =>
    if_neg fun hwr => hw r hwr hr.2
  rw [part_update hf hp, Set.image_congr hid, Set.image_id']

theorem affected_congr (hw : ∀ r, w r = true → p r) (h : t.part p = t'.part p) :
    t.affected w = t'.affected w :=
  countP_congr fun r hr => mem_congr h (hw r hr)

theorem any_congr (hw : ∀ r, w r = true → p r) (h : t.part p = t'.part p) :
    t.rows.any w = t'.rows.any w := by
  rw [Bool.eq_iff_iff, List.any_eq_true, List.any_eq_true]
  constructor
  · exact fun ⟨r, hr, hwr⟩ => ⟨r, (mem_congr h (hw r hwr)).mp hr, hwr⟩
  · exact fun ⟨r, hr, hwr⟩ => ⟨r, (mem_congr h (hw r hwr)).mpr hr, hwr⟩

/-! ## Inserts -/

variable [DecidableEq κ] {rs : List ρ}

theorem part_insertAll_of_not (hrs : ∀ r ∈ rs, ¬p r) : (t.insertAll rs).part p = t.part p := by
  ext x
  rw [mem_part, mem_part]
  constructor
  · rintro ⟨hx, hpx⟩
    rcases of_mem_insertAll hx with hx | ⟨hx, -⟩
    · exact ⟨hx, hpx⟩
    · exact absurd hpx (hrs x hx)
  · exact fun ⟨hx, hpx⟩ => ⟨mem_insertAll_of_mem rs hx, hpx⟩

/-- When the key of a row says whether it is in the part, the part says which of its keys are
free. -/
theorem added_congr (hk : ∀ r r', key r = key r' → (p r ↔ p r')) (hrs : ∀ r ∈ rs, p r)
    (h : t.part p = t'.part p) : ∃ added, (t.insertAll rs).rows = t.rows ++ added ∧
      (t'.insertAll rs).rows = t'.rows ++ added := by
  refine rows_insertAll_added fun r hr => ?_
  rw [mem_keys, mem_keys]
  constructor
  · rintro ⟨x, hx, hxk⟩
    exact ⟨x, (mem_congr h ((hk x r hxk).mpr (hrs r hr))).mp hx, hxk⟩
  · rintro ⟨x, hx, hxk⟩
    exact ⟨x, (mem_congr h ((hk x r hxk).mpr (hrs r hr))).mpr hx, hxk⟩

theorem part_insertAll_congr (hk : ∀ r r', key r = key r' → (p r ↔ p r')) (hrs : ∀ r ∈ rs, p r)
    (h : t.part p = t'.part p) : (t.insertAll rs).part p = (t'.insertAll rs).part p := by
  obtain ⟨added, hadd, hadd'⟩ := added_congr hk hrs h
  ext x
  rw [mem_part, mem_part, ← mem_rows, ← mem_rows, hadd, hadd', List.mem_append, List.mem_append]
  refine and_congr_left fun hpx => or_congr_left ?_
  exact mem_congr h hpx

theorem inserted_congr (hk : ∀ r r', key r = key r' → (p r ↔ p r')) (hrs : ∀ r ∈ rs, p r)
    (h : t.part p = t'.part p) : t.inserted rs = t'.inserted rs := by
  obtain ⟨added, hadd, hadd'⟩ := added_congr hk hrs h
  unfold inserted
  rw [hadd, hadd', List.length_append, List.length_append, Nat.add_sub_cancel_left,
    Nat.add_sub_cancel_left]

end Table

end Keyed
