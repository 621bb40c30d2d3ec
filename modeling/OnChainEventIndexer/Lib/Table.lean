import Mathlib.Data.List.Nodup
import Mathlib.Data.List.Perm.Basic
import Mathlib.Data.List.Perm.Subperm

/-!
# Keyed tables: `INSERT … ON CONFLICT DO NOTHING` and `UPDATE … WHERE`

A table with a unique key is a list of rows with pairwise distinct keys (`Table.nodup`), so a
table that violates its primary key cannot be built. Row order carries no meaning: two tables
hold the same contents when they have the same members.

* `insertIgnore` / `insertAll`: one row, or the rows of one `VALUES` list in order; a row whose
  key is already there is dropped, also when the other one comes from the same statement.
* `update`: `SET` on the rows of a `WHERE` clause; the key columns are not assigned (`hf`).
* `erase`: drop the row of a key. `delete`: drop the rows of a `WHERE` clause.

`insertAll_same_iff` is the algebra of repeated inserts: when the inserted rows carry one payload per
key, the result does not depend on their order, grouping or repetition.
-/

namespace Keyed

/-- Rows with pairwise distinct keys. -/
structure Table {ρ κ : Type} (key : ρ → κ) where
  rows : List ρ
  nodup : (rows.map key).Nodup

namespace Table

variable {ρ κ : Type} {key : ρ → κ}

instance : Membership ρ (Table key) := ⟨fun t r => r ∈ t.rows⟩

theorem mem_rows {t : Table key} {r : ρ} : r ∈ t.rows ↔ r ∈ t := Iff.rfl

instance (t : Table key) (p : ρ → Prop) [DecidablePred p] : Decidable (∀ r ∈ t, p r) :=
  inferInstanceAs (Decidable (∀ r ∈ t.rows, p r))

instance (t : Table key) (p : ρ → Prop) [DecidablePred p] : Decidable (∃ r ∈ t, p r) :=
  inferInstanceAs (Decidable (∃ r ∈ t.rows, p r))

instance [DecidableEq ρ] (t : Table key) (r : ρ) : Decidable (r ∈ t) :=
  inferInstanceAs (Decidable (r ∈ t.rows))

/-- The table without rows. -/
def empty : Table key := ⟨[], List.nodup_nil⟩

@[simp] theorem not_mem_empty (r : ρ) : r ∉ (empty : Table key) := List.not_mem_nil

/-- The keys present. -/
def keys (t : Table key) : List κ := t.rows.map key

theorem mem_keys {t : Table key} {k : κ} : k ∈ t.keys ↔ ∃ r ∈ t, key r = k := List.mem_map

theorem key_mem_keys {t : Table key} {r : ρ} (h : r ∈ t) : key r ∈ t.keys := mem_keys.mpr ⟨r, h, rfl⟩

/-- A key names at most one row. -/
theorem eq_of_key {t : Table key} {r r' : ρ} (h : r ∈ t) (h' : r' ∈ t) (hk : key r = key r') :
    r = r' :=
  List.inj_on_of_nodup_map t.nodup h h' hk

theorem rows_nodup (t : Table key) : t.rows.Nodup := List.Nodup.of_map _ t.nodup

variable [DecidableEq κ]

/-- The row of key `k`. -/
def find? (t : Table key) (k : κ) : Option ρ := t.rows.find? fun r => key r = k

theorem find?_eq_some {t : Table key} {k : κ} {r : ρ} :
    t.find? k = some r ↔ r ∈ t ∧ key r = k := by
  unfold find?
  constructor
  · intro h
    exact ⟨List.mem_of_find?_eq_some h, by simpa using List.find?_some h⟩
  · rintro ⟨hr, hk⟩
    cases hf : t.rows.find? fun r => key r = k with
    | none => exact absurd hk (by simpa using List.find?_eq_none.mp hf r hr)
    | some r' =>
      have hk' : key r' = k := by simpa using List.find?_some hf
      rw [eq_of_key (List.mem_of_find?_eq_some hf) hr (hk'.trans hk.symm)]

theorem find?_of_mem {t : Table key} {r : ρ} (h : r ∈ t) : t.find? (key r) = some r :=
  find?_eq_some.mpr ⟨h, rfl⟩

theorem find?_eq_none {t : Table key} {k : κ} : t.find? k = none ↔ ∀ r ∈ t, key r ≠ k := by
  unfold find?
  simp only [List.find?_eq_none, decide_eq_true_eq]
  rfl

/-! ## Inserting -/

/-- `INSERT … ON CONFLICT DO NOTHING` of one row. -/
def insertIgnore (t : Table key) (r : ρ) : Table key :=
  if h : key r ∈ t.keys then t
  else ⟨t.rows ++ [r], by
    rw [List.map_append, List.map_singleton]
    exact t.nodup.append (List.nodup_singleton _) (List.disjoint_singleton.mpr h)⟩

theorem insertIgnore_of_mem {t : Table key} {r : ρ} (h : key r ∈ t.keys) : t.insertIgnore r = t :=
  dif_pos h

theorem rows_insertIgnore {t : Table key} {r : ρ} (h : key r ∉ t.keys) :
    (t.insertIgnore r).rows = t.rows ++ [r] := by
  unfold insertIgnore
  rw [dif_neg h]

theorem mem_insertIgnore {t : Table key} {r x : ρ} :
    x ∈ t.insertIgnore r ↔ x ∈ t ∨ (x = r ∧ key r ∉ t.keys) := by
  unfold insertIgnore
  split
  · rename_i h
    simp [h]
  · rename_i h
    rw [← mem_rows, List.mem_append, List.mem_singleton]
    simp [mem_rows, h]

theorem mem_keys_insertIgnore {t : Table key} {r : ρ} {k : κ} :
    k ∈ (t.insertIgnore r).keys ↔ k ∈ t.keys ∨ k = key r := by
  rw [mem_keys]
  constructor
  · rintro ⟨x, hx, rfl⟩
    rcases mem_insertIgnore.mp hx with h | ⟨rfl, -⟩
    · exact Or.inl (key_mem_keys h)
    · exact Or.inr rfl
  · by_cases hr : key r ∈ t.keys
    · rw [insertIgnore_of_mem hr]
      rintro (h | rfl)
      · exact mem_keys.mp h
      · exact mem_keys.mp hr
    · rintro (h | rfl)
      · obtain ⟨x, hx, hk⟩ := mem_keys.mp h
        exact ⟨x, mem_insertIgnore.mpr (Or.inl hx), hk⟩
      · exact ⟨r, mem_insertIgnore.mpr (Or.inr ⟨rfl, hr⟩), rfl⟩

/-- The rows of one `VALUES` list, in order. -/
def insertAll (t : Table key) (rs : List ρ) : Table key := rs.foldl insertIgnore t

/-- The number of rows the statement reports as inserted. -/
def inserted (t : Table key) (rs : List ρ) : Nat := (t.insertAll rs).rows.length - t.rows.length

@[simp] theorem insertAll_nil (t : Table key) : t.insertAll [] = t := rfl

@[simp] theorem insertAll_cons (t : Table key) (r : ρ) (rs : List ρ) :
    t.insertAll (r :: rs) = (t.insertIgnore r).insertAll rs := rfl

theorem insertAll_append (t : Table key) (rs rs' : List ρ) :
    t.insertAll (rs ++ rs') = (t.insertAll rs).insertAll rs' := List.foldl_append

theorem mem_insertAll_of_mem {t : Table key} {r : ρ} (rs : List ρ) (h : r ∈ t) :
    r ∈ t.insertAll rs := by
  induction rs generalizing t with
  | nil => exact h
  | cons x xs ih => exact ih (mem_insertIgnore.mpr (Or.inl h))

theorem mem_keys_insertAll {t : Table key} {rs : List ρ} {k : κ} :
    k ∈ (t.insertAll rs).keys ↔ k ∈ t.keys ∨ ∃ r ∈ rs, key r = k := by
  induction rs generalizing t with
  | nil => simp
  | cons x xs ih =>
    rw [insertAll_cons, ih, mem_keys_insertIgnore, or_assoc, eq_comm (a := k)]
    simp only [List.mem_cons, exists_eq_or_imp]

/-- A row the statement leaves is an old one or one of its own with a key that was free. -/
theorem of_mem_insertAll {t : Table key} {rs : List ρ} {x : ρ} (h : x ∈ t.insertAll rs) :
    x ∈ t ∨ (x ∈ rs ∧ key x ∉ t.keys) := by
  induction rs generalizing t with
  | nil => exact Or.inl h
  | cons r rs ih =>
    rcases ih h with h | ⟨hx, hk⟩
    · rcases mem_insertIgnore.mp h with h | ⟨rfl, hk⟩
      · exact Or.inl h
      · exact Or.inr ⟨List.mem_cons_self, hk⟩
    · exact Or.inr ⟨List.mem_cons_of_mem _ hx, fun hm => hk (mem_keys_insertIgnore.mpr (Or.inl hm))⟩

/-- After the statement every row it carried has a row with its key. -/
theorem exists_mem_insertAll {t : Table key} {rs : List ρ} {r : ρ} (h : r ∈ rs) :
    ∃ x ∈ t.insertAll rs, key x = key r :=
  mem_keys.mp (mem_keys_insertAll.mpr (Or.inr ⟨r, h, rfl⟩))

/-- **One payload per key**: the rows after the statement are the old ones and, under the keys
that were free, the carried ones. Order and repetition of `rs` do not matter. -/
theorem insertAll_mem_iff {t : Table key} {rs : List ρ}
    (hone : ∀ r ∈ rs, ∀ r' ∈ rs, key r = key r' → r = r') {x : ρ} :
    x ∈ t.insertAll rs ↔ x ∈ t ∨ (x ∈ rs ∧ key x ∉ t.keys) := by
  refine ⟨of_mem_insertAll, ?_⟩
  rintro (h | ⟨hx, hk⟩)
  · exact mem_insertAll_of_mem rs h
  · obtain ⟨y, hy, hyk⟩ := exists_mem_insertAll (t := t) hx
    rcases of_mem_insertAll hy with hyt | ⟨hyr, -⟩
    · exact absurd (hyk ▸ key_mem_keys hyt) hk
    · exact hone y hyr x hx hyk ▸ hy

/-- **Fresh rows** with different keys are all added, in order. -/
theorem rows_insertAll_of_fresh {t : Table key} {rs : List ρ} (hnd : (rs.map key).Nodup)
    (hfresh : ∀ r ∈ rs, key r ∉ t.keys) : (t.insertAll rs).rows = t.rows ++ rs := by
  induction rs generalizing t with
  | nil => exact (List.append_nil _).symm
  | cons r rs ih =>
    rw [List.map_cons, List.nodup_cons] at hnd
    have hrows : (t.insertIgnore r).rows = t.rows ++ [r] := by
      unfold insertIgnore
      rw [dif_neg (hfresh r List.mem_cons_self)]
    rw [insertAll_cons, ih hnd.2, hrows, List.append_assoc, List.singleton_append]
    intro x hx hk
    rcases mem_keys_insertIgnore.mp hk with hk | hk
    · exact hfresh x (List.mem_cons_of_mem _ hx) hk
    · exact hnd.1 (hk ▸ List.mem_map_of_mem hx)

/-- Tables that agree on which keys are free get the same rows. -/
theorem rows_insertAll_added {t t' : Table key} {rs : List ρ}
    (h : ∀ r ∈ rs, key r ∈ t.keys ↔ key r ∈ t'.keys) :
    ∃ added, (t.insertAll rs).rows = t.rows ++ added ∧
      (t'.insertAll rs).rows = t'.rows ++ added := by
  induction rs generalizing t t' with
  | nil => exact ⟨[], (List.append_nil _).symm, (List.append_nil _).symm⟩
  | cons r rs ih =>
    have hr := h r List.mem_cons_self
    have hrest : ∀ x ∈ rs, key x ∈ (t.insertIgnore r).keys ↔ key x ∈ (t'.insertIgnore r).keys := by
      intro x hx
      rw [mem_keys_insertIgnore, mem_keys_insertIgnore, h x (List.mem_cons_of_mem _ hx)]
    obtain ⟨added, hadd, hadd'⟩ := ih hrest
    rw [insertAll_cons, insertAll_cons, hadd, hadd']
    unfold insertIgnore
    by_cases hk : key r ∈ t.keys
    · rw [dif_pos hk, dif_pos (hr.mp hk)]
      exact ⟨added, rfl, rfl⟩
    · rw [dif_neg hk, dif_neg fun hk' => hk (hr.mpr hk')]
      exact ⟨r :: added, by simp, by simp⟩

/-- **Which row a key names** after the statement: the first one, of the old rows and the carried
ones in order. -/
theorem find?_insertAll (t : Table key) (rs : List ρ) (k : κ) :
    (t.insertAll rs).find? k = (t.rows ++ rs).find? fun r => key r = k := by
  have hone : ∀ (t : Table key) (r : ρ), (t.insertIgnore r).rows.find? (fun x => key x = k) =
      (t.rows ++ [r]).find? fun x => key x = k := by
    intro t r
    by_cases hr : key r ∈ t.keys
    · rw [insertIgnore_of_mem hr, List.find?_append]
      by_cases hk : key r = k
      · obtain ⟨x, hx, hxk⟩ := mem_keys.mp hr
        have hfind := find?_eq_some.mpr ⟨hx, hxk.trans hk⟩
        unfold find? at hfind
        rw [hfind, Option.some_or]
      · simp [hk]
    · unfold insertIgnore
      rw [dif_neg hr]
  induction rs generalizing t with
  | nil => rw [List.append_nil]; rfl
  | cons r rs ih =>
    rw [insertAll_cons, ih, List.find?_append, hone, ← List.find?_append, List.append_assoc,
      List.singleton_append]

/-- The same contents. -/
def Same (t t' : Table key) : Prop := ∀ r, r ∈ t ↔ r ∈ t'

/-- **Idempotence and order independence**: two lists of rows with one payload per key lead to the
same contents if and only if they have the same members under the keys that are free. -/
theorem insertAll_same_iff (t : Table key) {rs rs' : List ρ}
    (hone : ∀ r ∈ rs ++ rs', ∀ r' ∈ rs ++ rs', key r = key r' → r = r') :
    Same (t.insertAll rs) (t.insertAll rs') ↔
      ∀ r ∈ rs ++ rs', key r ∈ t.keys ∨ (r ∈ rs ↔ r ∈ rs') := by
  have hleft : ∀ r ∈ rs, ∀ r' ∈ rs, key r = key r' → r = r' := fun r hr r' hr' =>
    hone r (List.mem_append_left _ hr) r' (List.mem_append_left _ hr')
  have hright : ∀ r ∈ rs', ∀ r' ∈ rs', key r = key r' → r = r' := fun r hr r' hr' =>
    hone r (List.mem_append_right _ hr) r' (List.mem_append_right _ hr')
  unfold Same
  simp only [insertAll_mem_iff hleft, insertAll_mem_iff hright]
  constructor
  · intro h r _
    by_cases hk : key r ∈ t.keys
    · exact Or.inl hk
    · have hnew : r ∉ t := fun hr => hk (key_mem_keys hr)
      simpa [hnew, hk] using h r
  · intro h r
    refine or_congr_right (and_congr_left fun hk => ?_)
    by_cases hr : r ∈ rs ++ rs'
    · exact (h r hr).resolve_left hk
    · exact ⟨fun h => absurd (List.mem_append_left _ h) hr,
        fun h => absurd (List.mem_append_right _ h) hr⟩

/-- Rows made of things, each row of one thing only: the contents are the same if and only if each
thing brings no row under a free key, or is in both lists or in neither. -/
theorem insertAll_flatMap_same_iff {τ : Type} (t : Table key) {f : τ → List ρ} {l l' : List τ}
    (all : List τ) (hl : ∀ x ∈ l, x ∈ all) (hl' : ∀ x ∈ l', x ∈ all)
    (hone : ∀ x ∈ all, ∀ x' ∈ all, ∀ r ∈ f x, ∀ r' ∈ f x', key r = key r' → x = x' ∧ r = r') :
    Same (t.insertAll (l.flatMap f)) (t.insertAll (l'.flatMap f)) ↔
      ∀ x ∈ all, (∀ r ∈ f x, key r ∈ t.keys) ∨ (x ∈ l ↔ x ∈ l') := by
  have hof : ∀ {m : List τ}, (∀ x ∈ m, x ∈ all) → ∀ x ∈ all, ∀ r ∈ f x,
      (r ∈ m.flatMap f ↔ x ∈ m) := by
    intro m hm x hx r hr
    refine ⟨fun h => ?_, fun h => List.mem_flatMap.mpr ⟨x, h, hr⟩⟩
    obtain ⟨x', hx', hr'⟩ := List.mem_flatMap.mp h
    exact (hone x' (hm x' hx') x hx r hr' r hr rfl).1 ▸ hx'
  have hthing : ∀ r ∈ l.flatMap f ++ l'.flatMap f, ∃ x ∈ all, r ∈ f x := by
    intro r hr
    rcases List.mem_append.mp hr with h | h
    · obtain ⟨x, hx, hr⟩ := List.mem_flatMap.mp h
      exact ⟨x, hl x hx, hr⟩
    · obtain ⟨x, hx, hr⟩ := List.mem_flatMap.mp h
      exact ⟨x, hl' x hx, hr⟩
  rw [insertAll_same_iff]
  · constructor
    · intro h x hx
      refine or_iff_not_imp_left.mpr fun hfree => ?_
      push Not at hfree
      obtain ⟨r, hr, hk⟩ := hfree
      by_cases hcarried : r ∈ l.flatMap f ++ l'.flatMap f
      · have := (h r hcarried).resolve_left hk
        rwa [hof hl x hx r hr, hof hl' x hx r hr] at this
      · rw [List.mem_append, hof hl x hx r hr, hof hl' x hx r hr] at hcarried
        tauto
    · intro h r hr
      obtain ⟨x, hx, hrx⟩ := hthing r hr
      rw [hof hl x hx r hrx, hof hl' x hx r hrx]
      exact (h x hx).imp_left fun hkeys => hkeys r hrx
  · intro r hr r' hr' hk
    obtain ⟨x, hx, hrx⟩ := hthing r hr
    obtain ⟨x', hx', hrx'⟩ := hthing r' hr'
    exact (hone x hx x' hx' r hrx r' hrx' hk).2

/-! ## Updating -/

/-- `UPDATE … SET f WHERE p`; the key columns are not assigned. -/
def update (t : Table key) (p : ρ → Bool) (f : ρ → ρ) (hf : ∀ r, key (f r) = key r) : Table key :=
  ⟨t.rows.map fun r => if p r then f r else r, by
    have : key ∘ (fun r => if p r then f r else r) = key := by
      funext r
      simp only [Function.comp]
      split
      · exact hf r
      · rfl
    rw [List.map_map, this]
    exact t.nodup⟩

omit [DecidableEq κ] in
theorem mem_update {t : Table key} {p : ρ → Bool} {f : ρ → ρ} (hf : ∀ r, key (f r) = key r)
    {x : ρ} : x ∈ t.update p f hf ↔ ∃ r ∈ t, x = if p r then f r else r := by
  rw [← mem_rows]
  unfold update
  simp only [List.mem_map, eq_comm (a := x)]
  rfl

omit [DecidableEq κ] in
theorem keys_update {t : Table key} {p : ρ → Bool} {f : ρ → ρ} {hf : ∀ r, key (f r) = key r} :
    (t.update p f hf).keys = t.keys := by
  unfold keys update
  rw [List.map_map]
  refine List.map_congr_left fun r _ => ?_
  simp only [Function.comp]
  split
  · exact hf r
  · rfl

/-- The rows an `UPDATE … WHERE p` reports as affected. -/
def affected (t : Table key) (p : ρ → Bool) : Nat := t.rows.countP p

omit [DecidableEq κ] in
theorem affected_eq_zero {t : Table key} {p : ρ → Bool} :
    t.affected p = 0 ↔ ∀ r ∈ t, p r = false := by
  unfold affected
  rw [List.countP_eq_zero]
  simp only [Bool.not_eq_true]
  rfl

omit [DecidableEq κ] in
/-- A `WHERE` clause that fixes the key affects at most one row. -/
theorem affected_le_one {t : Table key} {p : ρ → Bool} {k : κ} (h : ∀ r, p r = true → key r = k) :
    t.affected p ≤ 1 := by
  have hrep : (t.rows.filter p).map key = List.replicate (t.rows.filter p).length k := by
    refine List.eq_replicate_iff.mpr ⟨List.length_map _, fun x hx => ?_⟩
    obtain ⟨r, hr, rfl⟩ := List.mem_map.mp hx
    exact h r (List.mem_filter.mp hr).2
  have hnd : ((t.rows.filter p).map key).Nodup := (List.filter_sublist.map key).nodup t.nodup
  rw [hrep, List.nodup_replicate] at hnd
  unfold affected
  rw [List.countP_eq_length_filter]
  exact hnd

omit [DecidableEq κ] in
theorem affected_eq_one {t : Table key} {p : ρ → Bool} {k : κ} (h : ∀ r, p r = true → key r = k)
    {r : ρ} (hr : r ∈ t) (hp : p r = true) : t.affected p = 1 := by
  have h0 : t.affected p ≠ 0 := fun h0 => by
    rw [affected_eq_zero.mp h0 r hr] at hp
    exact absurd hp Bool.false_ne_true
  have := affected_le_one (t := t) h
  omega

/-- The row of a key after an update. -/
theorem find?_update {t : Table key} {p : ρ → Bool} {f : ρ → ρ} (hf : ∀ r, key (f r) = key r)
    (k : κ) :
    (t.update p f hf).find? k = (t.find? k).map fun r => if p r then f r else r := by
  have hkey : ∀ r, key (if p r then f r else r) = key r := by
    intro r
    split
    · exact hf r
    · rfl
  ext x
  rw [find?_eq_some, mem_update hf, Option.map_eq_some_iff]
  constructor
  · rintro ⟨⟨r, hr, rfl⟩, hk⟩
    exact ⟨r, find?_eq_some.mpr ⟨hr, (hkey r).symm.trans hk⟩, rfl⟩
  · rintro ⟨r, hr, rfl⟩
    obtain ⟨hr, hk⟩ := find?_eq_some.mp hr
    exact ⟨⟨r, hr, rfl⟩, (hkey r).trans hk⟩

/-- The rows a `WHERE` clause that fixes the key affects. -/
theorem affected_of_key {t : Table key} {p : ρ → Bool} {k : κ} (h : ∀ r, p r = true → key r = k) :
    t.affected p = (t.find? k).elim 0 fun r => if p r then 1 else 0 := by
  cases hfind : t.find? k with
  | none =>
    refine affected_eq_zero.mpr fun r hr => ?_
    exact Bool.eq_false_iff.mpr fun hp => find?_eq_none.mp hfind r hr (h r hp)
  | some r =>
    obtain ⟨hr, hk⟩ := find?_eq_some.mp hfind
    rw [Option.elim_some]
    by_cases hp : p r = true
    · rw [if_pos hp, affected_eq_one h hr hp]
    · refine (affected_eq_zero.mpr fun x hx => Bool.eq_false_iff.mpr fun hpx => hp ?_).trans
        (if_neg hp).symm
      rwa [eq_of_key hr hx (hk.trans (h x hpx).symm)]

/-- Drop the row of key `k`. -/
def erase (t : Table key) (k : κ) : Table key :=
  ⟨t.rows.filter fun r => key r ≠ k, (List.filter_sublist.map key).nodup t.nodup⟩

theorem mem_erase {t : Table key} {k : κ} {x : ρ} : x ∈ t.erase k ↔ x ∈ t ∧ key x ≠ k := by
  rw [← mem_rows]
  unfold erase
  rw [List.mem_filter]
  simp [mem_rows]

omit [DecidableEq κ] in
theorem eq_of_rows {t t' : Table key} (h : t.rows = t'.rows) : t = t' := by
  obtain ⟨rows, nodup⟩ := t
  subst h
  rfl

omit [DecidableEq κ] in
/-- Two updates that do the same to the rows that are there. -/
theorem update_congr {t : Table key} {p p' : ρ → Bool} {f f' : ρ → ρ} {hf : ∀ r, key (f r) = key r}
    {hf' : ∀ r, key (f' r) = key r}
    (h : ∀ r ∈ t, (if p r then f r else r) = if p' r then f' r else r) :
    t.update p f hf = t.update p' f' hf' :=
  eq_of_rows (List.map_congr_left fun r hr => h r hr)

omit [DecidableEq κ] in
/-- An update of one row, in its place. -/
theorem rows_update_one {t : Table key} {before after : List ρ} {r : ρ} {p : ρ → Bool} {f : ρ → ρ}
    (hf : ∀ r, key (f r) = key r) (hrows : t.rows = before ++ r :: after)
    (hp : ∀ x ∈ t, p x = true ↔ key x = key r) : (t.update p f hf).rows = before ++ f r :: after := by
  have hnd := t.nodup
  rw [hrows, List.map_append, List.map_cons, List.nodup_append, List.nodup_cons] at hnd
  obtain ⟨-, ⟨hafter, -⟩, hbefore⟩ := hnd
  have hmem : ∀ x, x ∈ before ++ r :: after → x ∈ t := fun x hx => mem_rows.mp (hrows ▸ hx)
  have hkeep : ∀ l : List ρ, (∀ x ∈ l, x ∈ t ∧ key x ≠ key r) →
      l.map (fun x => if p x then f x else x) = l := by
    intro l hl
    refine (List.map_congr_left fun x hx => ?_).trans (List.map_id' l)
    rw [if_neg fun h => (hl x hx).2 ((hp x (hl x hx).1).mp h)]
  show t.rows.map (fun x => if p x then f x else x) = _
  rw [hrows, List.map_append, List.map_cons, hkeep before, hkeep after,
    if_pos ((hp r (hmem r (by simp))).mpr rfl)]
  · exact fun x hx => ⟨hmem x (by simp [hx]), fun he => hafter (he ▸ List.mem_map_of_mem hx)⟩
  · exact fun x hx => ⟨hmem x (by simp [hx]), fun he =>
      hbefore _ (List.mem_map_of_mem hx) _ List.mem_cons_self he⟩

/-- `DELETE … WHERE w`. -/
def delete (t : Table key) (w : ρ → Bool) : Table key :=
  ⟨t.rows.filter fun r => !w r, (List.filter_sublist.map key).nodup t.nodup⟩

omit [DecidableEq κ] in
theorem mem_delete {t : Table key} {w : ρ → Bool} {x : ρ} :
    x ∈ t.delete w ↔ x ∈ t ∧ w x = false := by
  rw [← mem_rows]
  unfold delete
  rw [List.mem_filter, Bool.not_eq_true', mem_rows]

omit [DecidableEq κ] in
theorem delete_eq_self {t : Table key} {w : ρ → Bool} (h : ∀ r ∈ t, w r = false) :
    t.delete w = t := by
  refine eq_of_rows (List.filter_eq_self.mpr fun r hr => ?_)
  rw [h r hr]
  rfl

/-! ## Counting rows -/

omit [DecidableEq κ] in
/-- Tables with the same rows of a kind list them in some order. -/
theorem perm_filter {t t' : Table key} {p : ρ → Bool} (h : ∀ r, p r = true → (r ∈ t ↔ r ∈ t')) :
    (t.rows.filter p).Perm (t'.rows.filter p) := by
  refine (List.perm_ext_iff_of_nodup (t.rows_nodup.filter _) (t'.rows_nodup.filter _)).mpr fun r => ?_
  rw [List.mem_filter, List.mem_filter, mem_rows, mem_rows]
  constructor
  · exact fun ⟨hr, hp⟩ => ⟨(h r hp).mp hr, hp⟩
  · exact fun ⟨hr, hp⟩ => ⟨(h r hp).mpr hr, hp⟩

omit [DecidableEq κ] in
/-- ...and count as many. -/
theorem countP_congr {t t' : Table key} {p : ρ → Bool} (h : ∀ r, p r = true → (r ∈ t ↔ r ∈ t')) :
    t.rows.countP p = t'.rows.countP p := by
  rw [List.countP_eq_length_filter, List.countP_eq_length_filter]
  exact (perm_filter h).length_eq

omit [DecidableEq κ] in
/-- A count does not go down where each row that counts has one with its key that does. -/
theorem countP_le_of_keys {t t' : Table key} {p p' : ρ → Bool}
    (h : ∀ r ∈ t, p r = true → ∃ r' ∈ t', key r' = key r ∧ p' r' = true) :
    t.rows.countP p ≤ t'.rows.countP p' := by
  have hnd : ((t.rows.filter p).map key).Nodup := t.nodup.sublist (List.filter_sublist.map key)
  have hsub : (t.rows.filter p).map key ⊆ (t'.rows.filter p').map key := by
    intro k hk
    obtain ⟨r, hr, rfl⟩ := List.mem_map.mp hk
    obtain ⟨hr, hp⟩ := List.mem_filter.mp hr
    obtain ⟨r', hr', hkey, hp'⟩ := h r hr hp
    exact hkey ▸ List.mem_map_of_mem (List.mem_filter.mpr ⟨hr', hp'⟩)
  have hle := (List.subperm_of_subset hnd hsub).length_le
  rwa [List.length_map, List.length_map, ← List.countP_eq_length_filter,
    ← List.countP_eq_length_filter] at hle

/-- Inserting adds no more rows than it carries. -/
theorem countP_insertAll_le (t : Table key) (rs : List ρ) (p : ρ → Bool) :
    (t.insertAll rs).rows.countP p ≤ t.rows.countP p + rs.length := by
  induction rs generalizing t with
  | nil => exact Nat.le_refl _
  | cons r rs ih =>
    have hone : (t.insertIgnore r).rows.countP p ≤ t.rows.countP p + 1 := by
      unfold insertIgnore
      split
      · omega
      · rw [List.countP_append]
        have := List.countP_le_length (p := p) (l := [r])
        rw [List.length_singleton] at this
        omega
    have := ih (t.insertIgnore r)
    rw [insertAll_cons, List.length_cons]
    omega

/-- The rows an insert adds are some of those it carries. -/
theorem exists_rows_insertAll (t : Table key) (rs : List ρ) :
    ∃ added, (t.insertAll rs).rows = t.rows ++ added ∧ ∀ r ∈ added, r ∈ rs := by
  induction rs generalizing t with
  | nil => exact ⟨[], (List.append_nil _).symm, fun _ h => h⟩
  | cons r rs ih =>
    obtain ⟨added, hrows, hadded⟩ := ih (t.insertIgnore r)
    unfold insertIgnore at hrows
    split at hrows
    · rename_i hk
      rw [insertAll_cons, insertIgnore_of_mem hk]
      exact ⟨added, hrows, fun x hx => List.mem_cons_of_mem r (hadded x hx)⟩
    · rename_i hk
      refine ⟨r :: added, ?_, fun x hx => ?_⟩
      · rw [insertAll_cons]
        unfold insertIgnore
        rw [dif_neg hk, hrows, List.append_assoc, List.singleton_append]
      · rcases List.mem_cons.mp hx with rfl | hx
        · exact List.mem_cons_self
        · exact List.mem_cons_of_mem r (hadded x hx)

/-- **An insert of rows of one kind** adds to their count what it reports, and to no other. -/
theorem countP_insertAll {t : Table key} {rs : List ρ} {p : ρ → Bool} {b : Bool}
    (h : ∀ r ∈ rs, p r = b) :
    (t.insertAll rs).rows.countP p = t.rows.countP p + if b then t.inserted rs else 0 := by
  obtain ⟨added, hrows, hadded⟩ := exists_rows_insertAll t rs
  have hcount : t.inserted rs = added.length := by
    unfold inserted
    rw [hrows, List.length_append, Nat.add_sub_cancel_left]
  rw [hrows, List.countP_append, hcount]
  cases b with
  | true => rw [if_pos rfl, List.countP_eq_length.mpr fun r hr => h r (hadded r hr)]
  | false =>
    have hnone : added.countP p = 0 := List.countP_eq_zero.mpr fun r hr => by
      rw [h r (hadded r hr)]
      exact Bool.false_ne_true
    rw [if_neg Bool.false_ne_true, hnone]

omit [DecidableEq κ] in
/-- An update that takes its rows into a count adds what it reports. -/
theorem countP_update {t : Table key} {w q : ρ → Bool} {f : ρ → ρ} (hf : ∀ r, key (f r) = key r)
    (h : ∀ r ∈ t, w r = true → q r = false ∧ q (f r) = true) :
    (t.update w f hf).rows.countP q = t.rows.countP q + t.affected w := by
  have hlist : ∀ l : List ρ, (∀ r ∈ l, w r = true → q r = false ∧ q (f r) = true) →
      (l.map fun r => if w r then f r else r).countP q = l.countP q + l.countP w := by
    intro l hl
    induction l with
    | nil => rfl
    | cons r l ih =>
      have hr := hl r List.mem_cons_self
      rw [List.map_cons, List.countP_cons, List.countP_cons, List.countP_cons,
        ih fun x hx => hl x (List.mem_cons_of_mem r hx)]
      cases hw : w r with
      | true =>
        obtain ⟨hbefore, hafter⟩ := hr hw
        simp only [if_true, hbefore, hafter, Bool.false_eq_true, if_false]
        omega
      | false =>
        simp only [Bool.false_eq_true, if_false]
        omega
  exact hlist t.rows h

omit [DecidableEq κ] in
/-- One that moves no row in or out leaves the count as it is. -/
theorem countP_update_eq {t : Table key} {w q : ρ → Bool} {f : ρ → ρ} (hf : ∀ r, key (f r) = key r)
    (h : ∀ r ∈ t, w r = true → q (f r) = q r) :
    (t.update w f hf).rows.countP q = t.rows.countP q := by
  unfold update
  rw [List.countP_map]
  refine List.countP_congr fun r hr => ?_
  simp only [Function.comp]
  split
  · rename_i hw
    rw [h r hr hw]
  · exact Iff.rfl

omit [DecidableEq κ] in
/-- An update takes no row into a count that was not in another one before. -/
theorem countP_update_le {t : Table key} {p q q' : ρ → Bool} {f : ρ → ρ}
    (hf : ∀ r, key (f r) = key r) (h : ∀ r, q (if p r then f r else r) = true → q' r = true) :
    (t.update p f hf).rows.countP q ≤ t.rows.countP q' := by
  unfold update
  rw [List.countP_map]
  exact List.countP_mono_left fun r _ => h r

omit [DecidableEq κ] in
/-- An update that takes a row out of the count, and none in, lowers it. -/
theorem countP_update_lt {t : Table key} {p q : ρ → Bool} {f : ρ → ρ}
    (hf : ∀ r, key (f r) = key r) (h : ∀ r, q (if p r then f r else r) = true → q r = true) {r : ρ}
    (hr : r ∈ t) (hq : q r = true) (hq' : q (if p r then f r else r) = false) :
    (t.update p f hf).rows.countP q < t.rows.countP q := by
  obtain ⟨l, l', hl⟩ := List.append_of_mem (mem_rows.mpr hr)
  have hmono : ∀ l : List ρ, (l.map fun r => if p r then f r else r).countP q ≤ l.countP q := by
    intro l
    rw [List.countP_map]
    exact List.countP_mono_left fun r _ => h r
  have h1 := hmono l
  have h2 := hmono l'
  unfold update
  simp only [hl, List.map_append, List.map_cons, List.countP_append, List.countP_cons, hq, hq',
    if_true, Bool.false_eq_true, if_false]
  omega

end Table

end Keyed
