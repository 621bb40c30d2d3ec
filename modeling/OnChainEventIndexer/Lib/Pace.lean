import Mathlib.Data.List.Basic

/-!
# Paced events

The times of events, in order, each at least `period` after the one before: `length_mul_le` bounds
how many of them lie in an interval.
-/

namespace Pace

/-- Any two events are at least `period` apart. -/
def Paced (period : Nat) (times : List Nat) : Prop := times.Pairwise fun a b => a + period ≤ b

instance (period : Nat) (times : List Nat) : Decidable (Paced period times) :=
  inferInstanceAs (Decidable (List.Pairwise _ _))

variable {period : Nat} {times : List Nat}

theorem Paced.sublist {times' : List Nat} (h : Paced period times) (hs : times'.Sublist times) :
    Paced period times' := List.Pairwise.sublist hs h

/-- Each event after the first one adds a period. -/
theorem Paced.exists_late {a : Nat} (h : Paced period (a :: times)) :
    ∃ b ∈ a :: times, a + times.length * period ≤ b := by
  induction times generalizing a with
  | nil => exact ⟨a, List.mem_singleton_self a, by simp⟩
  | cons c times ih =>
    obtain ⟨hac, h⟩ := List.pairwise_cons.mp h
    obtain ⟨b, hb, hle⟩ := ih h
    refine ⟨b, List.mem_cons_of_mem a hb, ?_⟩
    have hstep := hac c List.mem_cons_self
    rw [List.length_cons, Nat.succ_mul]
    omega

/-- **How many fit into `d`.** -/
theorem Paced.length_mul_le {d : Nat} (h : Paced period times)
    (hd : ∀ a ∈ times, ∀ b ∈ times, b ≤ a + d) : times.length * period ≤ d + period := by
  cases times with
  | nil => simp
  | cons a times =>
    obtain ⟨b, hb, hle⟩ := h.exists_late
    have hab := hd a List.mem_cons_self b hb
    rw [List.length_cons, Nat.succ_mul]
    omega

end Pace
