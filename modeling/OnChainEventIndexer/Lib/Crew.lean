import Mathlib.Algebra.BigOperators.Group.Finset.Piecewise
import Mathlib.Algebra.Order.BigOperators.Group.Finset

/-!
# Crews

Any number of members, each in a state of its own; all but finitely many are at rest. `total U w f`
adds up the weights of the members in `U`.

* `total_update`: what one member's move does to a total.
* `total_update_lt`: a move that lowers the mover's weight, and raises nobody else's, lowers the
  total, also where the weights depend on something else that changes with the move.
* `card_members`: a total of ones counts members.
-/

namespace Crew

variable {ι α : Type} {U : Finset ι} {w w' : α → ℕ} {f : ι → α}

/-- Every member outside `U` is at rest. -/
def Within (U : Finset ι) (rest : α) (f : ι → α) : Prop := ∀ i, i ∉ U → f i = rest

/-- The weights of the members, added up. -/
def total (U : Finset ι) (w : α → ℕ) (f : ι → α) : ℕ := ∑ i ∈ U, w (f i)

theorem exists_of_total_pos (h : 0 < total U w f) : ∃ i ∈ U, 0 < w (f i) := by
  obtain ⟨i, hi, hne⟩ := Finset.exists_ne_zero_of_sum_ne_zero (Nat.ne_of_gt h)
  exact ⟨i, hi, Nat.pos_of_ne_zero hne⟩

theorem total_le (h : ∀ i ∈ U, w (f i) ≤ w' (f i)) : total U w f ≤ total U w' f :=
  Finset.sum_le_sum h

/-- **Counting members**: a total of ones. -/
theorem card_members {p : α → Bool} :
    (U.filter fun i => p (f i) = true).card = total U (fun a => (p a).toNat) f := by
  unfold total
  rw [Finset.card_filter]
  refine Finset.sum_congr rfl fun i _ => ?_
  cases hp : p (f i) <;> simp [hp]

variable [DecidableEq ι]

theorem Within.insert {rest : α} (h : Within U rest f) (i : ι) : Within (insert i U) rest f :=
  fun j hj => h j fun hmem => hj (Finset.mem_insert_of_mem hmem)

/-- A member that moves belongs to the crew from then on. -/
theorem Within.update {rest : α} (h : Within U rest f) (i : ι) (x : α) :
    Within (Insert.insert i U) rest (Function.update f i x) := by
  intro j hj
  have hne : j ≠ i := fun he => hj (he ▸ Finset.mem_insert_self i U)
  rw [Function.update_of_ne hne]
  exact h.insert i j hj

/-- Members at rest weigh nothing. -/
theorem total_insert {rest : α} (h : Within U rest f) (hw : w rest = 0) (i : ι) :
    total (insert i U) w f = total U w f := by
  by_cases hi : i ∈ U
  · rw [Finset.insert_eq_of_mem hi]
  · unfold total
    rw [Finset.sum_insert hi, h i hi, hw, Nat.zero_add]

/-- **One member's move.** -/
theorem total_update {i : ι} (hi : i ∈ U) (x : α) :
    total U w (Function.update f i x) + w (f i) = total U w f + w x := by
  have hrest : ∑ j ∈ U.erase i, w (Function.update f i x j) = ∑ j ∈ U.erase i, w (f j) :=
    Finset.sum_congr rfl fun j hj => by rw [Function.update_of_ne (Finset.ne_of_mem_erase hj)]
  unfold total
  rw [← Finset.add_sum_erase U (fun j => w (Function.update f i x j)) hi,
    ← Finset.add_sum_erase U (fun j => w (f j)) hi, hrest, Function.update_self]
  omega

/-- **A move that lowers a total.** -/
theorem total_update_lt {i : ι} (hi : i ∈ U) {x : α} (hx : w' x < w (f i))
    (hrest : ∀ j ∈ U, j ≠ i → w' (f j) ≤ w (f j)) :
    total U w' (Function.update f i x) < total U w f := by
  refine Finset.sum_lt_sum (fun j hj => ?_) ⟨i, hi, by rwa [Function.update_self]⟩
  rcases eq_or_ne j i with rfl | hne
  · rw [Function.update_self]
    exact hx.le
  · rw [Function.update_of_ne hne]
    exact hrest j hj hne

end Crew
