import Mathlib.Data.ENat.Lattice
import Mathlib.Data.List.Range

/-!
# Loops that retry

A request is repeated as long as the replies are limited and the budget lasts: the loop runs over
the attempts `1..=R + 1` and goes on after a limited reply to an attempt `≤ R`. Before it goes on it
writes a warning, which may crash. `run` records the requests sent, the limits registered and how
the loop ends; after the last attempt it would be `exhausted`.

`first limited reply` is the position of the first reply that is not limited, `⊤` if there is none.

`keepsBudget_iff`: the loop sends `min (R + 1) first` requests, registers all but the last one and
returns what the last reply determines, if and only if no warning crashes that it has to write.
-/

namespace Retry

variable {α ρ : Type}

/-- How a loop ends. -/
inductive Ending (ρ : Type)
  | returned (r : ρ)
  | exhausted
  | crashed

/-- What a run of the loop has done: the requests, the registrations, and how it ended. -/
structure Record (ρ : Type) where
  sent : Nat
  registered : Nat
  ending : Ending ρ

/-- A loop: its budget `R`, which replies are limited, what a reply determines, and whether the
warnings can be written. -/
structure Loop (α ρ : Type) where
  retries : Nat
  limited : α → Prop
  outcome : α → ρ
  warns : Prop

namespace Loop

/-- The attempts `1..=R + 1`. -/
def attempts (l : Loop α ρ) : List Nat := List.range' 1 (l.retries + 1)

/-- The loop goes on after this attempt. -/
def Retries (l : Loop α ρ) (reply : Nat → α) (attempt : Nat) : Prop :=
  l.limited (reply attempt) ∧ attempt ≤ l.retries

open Classical in
/-- The loop over the attempts that are left. -/
noncomputable def run (l : Loop α ρ) (reply : Nat → α) : List Nat → Record ρ
  | [] => ⟨0, 0, .exhausted⟩
  | attempt :: rest =>
    if l.Retries reply attempt then
      if l.warns then
        let r := l.run reply rest
        ⟨r.sent + 1, r.registered + 1, r.ending⟩
      else ⟨1, 1, .crashed⟩
    else ⟨1, 0, .returned (l.outcome (reply attempt))⟩

end Loop

/-- The position of the first reply that is not limited. -/
noncomputable def first (limited : α → Prop) (reply : Nat → α) : ℕ∞ :=
  ⨅ (k : Nat) (_ : 1 ≤ k ∧ ¬limited (reply k)), (k : ℕ∞)

/-- What a retry budget promises. -/
structure KeepsBudget (l : Loop α ρ) (reply : Nat → α) (r : Record ρ) : Prop where
  sent : (r.sent : ℕ∞) = min ((l.retries + 1 : Nat) : ℕ∞) (first l.limited reply)
  registered : r.registered + 1 = r.sent
  ending : r.ending = .returned (l.outcome (reply r.sent))

variable {l : Loop α ρ} {reply : Nat → α}

theorem min_first {limited : α → Prop} {retries n : Nat} (h1 : 1 ≤ n) (hle : n ≤ retries + 1)
    (hbefore : ∀ i, 1 ≤ i → i < n → limited (reply i))
    (hlast : n = retries + 1 ∨ ¬limited (reply n)) :
    min ((retries + 1 : Nat) : ℕ∞) (first limited reply) = n := by
  refine le_antisymm ?_ (le_min (Nat.cast_le.mpr hle) (le_iInf₂ fun k hk => ?_))
  · rcases hlast with rfl | hn
    · exact min_le_left _ _
    · exact min_le_of_right_le (iInf₂_le n ⟨h1, hn⟩)
  · refine Nat.cast_le.mpr (Nat.le_of_not_lt fun hlt => hk.2 (hbefore k hk.1 hlt))

namespace Loop

/-- An attempt that is not repeated ends the loop. -/
theorem run_stop {attempt : Nat} (h : ¬l.Retries reply attempt) (rest : List Nat) :
    l.run reply (attempt :: rest) = ⟨1, 0, .returned (l.outcome (reply attempt))⟩ := if_neg h

/-- A warning that crashes ends it. -/
theorem run_crash {attempt : Nat} (h : l.Retries reply attempt) (hw : ¬l.warns) (rest : List Nat) :
    l.run reply (attempt :: rest) = ⟨1, 1, .crashed⟩ := by
  rw [run, if_pos h, if_neg hw]

theorem run_go {attempt : Nat} (h : l.Retries reply attempt) (hw : l.warns) (rest : List Nat) :
    l.run reply (attempt :: rest) = ⟨(l.run reply rest).sent + 1, (l.run reply rest).registered + 1,
      (l.run reply rest).ending⟩ := by
  rw [run, if_pos h, if_pos hw]

/-- Attempts that are repeated, then one that is not. -/
theorem run_append (hw : l.warns) {before : List Nat} (h : ∀ i ∈ before, l.Retries reply i)
    {attempt : Nat} (hstop : ¬l.Retries reply attempt) (rest : List Nat) :
    l.run reply (before ++ attempt :: rest) =
      ⟨before.length + 1, before.length, .returned (l.outcome (reply attempt))⟩ := by
  induction before with
  | nil => exact run_stop hstop rest
  | cons i before ih =>
    rw [List.cons_append, run_go (h i List.mem_cons_self) hw,
      ih fun j hj => h j (List.mem_cons_of_mem _ hj)]
    rfl

/-- The attempt the loop stops at: nothing after the budget is repeated. -/
theorem exists_stop (l : Loop α ρ) (reply : Nat → α) : ∃ n, (1 ≤ n ∧ n ≤ l.retries + 1) ∧
    ¬l.Retries reply n ∧ ∀ i, 1 ≤ i → i < n → l.Retries reply i := by
  classical
  have hex : ∃ n, 1 ≤ n ∧ ¬l.Retries reply n :=
    ⟨l.retries + 1, Nat.le_add_left 1 _, fun h => absurd h.2 (Nat.not_succ_le_self _)⟩
  obtain ⟨h1, hstop⟩ := Nat.find_spec hex
  refine ⟨Nat.find hex, ⟨h1, Nat.find_min' hex ⟨Nat.le_add_left 1 _, fun h =>
    absurd h.2 (Nat.not_succ_le_self _)⟩⟩, hstop, fun i hi hlt => ?_⟩
  by_contra hn
  exact Nat.find_min hex hlt ⟨hi, hn⟩

/-- **Without a crash the budget is kept.** -/
theorem keepsBudget_run (hw : l.warns) : KeepsBudget l reply (l.run reply l.attempts) := by
  obtain ⟨n, ⟨h1, hle⟩, hstop, hbefore⟩ := exists_stop l reply
  have hsplit : l.attempts =
      List.range' 1 (n - 1) ++ n :: List.range' (n + 1) (l.retries + 1 - n) := by
    have hfrom : List.range' n (l.retries + 1 - n + 1) =
        n :: List.range' (n + 1) (l.retries + 1 - n) :=
      List.range'_succ
    rw [← hfrom]
    unfold attempts
    have happ : List.range' 1 (n - 1) ++ List.range' (1 + (n - 1)) (l.retries + 1 - n + 1) =
        List.range' 1 (n - 1 + (l.retries + 1 - n + 1)) := List.range'_append_1
    rw [show 1 + (n - 1) = n by omega,
      show n - 1 + (l.retries + 1 - n + 1) = l.retries + 1 by omega] at happ
    exact happ.symm
  have hrun : l.run reply l.attempts = ⟨n, n - 1, .returned (l.outcome (reply n))⟩ := by
    rw [hsplit, run_append hw (fun i hi => ?_) hstop, List.length_range', Nat.sub_add_cancel h1]
    obtain ⟨hi1, hi2⟩ := List.mem_range'_1.mp hi
    exact hbefore i hi1 (by omega)
  rw [hrun]
  refine ⟨?_, Nat.sub_add_cancel h1, rfl⟩
  refine (min_first h1 hle (fun i hi hlt => (hbefore i hi hlt).1) ?_).symm
  by_cases hn : n ≤ l.retries
  · exact Or.inr fun hlimited => hstop ⟨hlimited, hn⟩
  · exact Or.inl (by omega)

/-- **The budget is kept** if and only if the warning after the first attempt can be written, or
there is none. -/
theorem keepsBudget_iff : KeepsBudget l reply (l.run reply l.attempts) ↔
    (1 ≤ l.retries → l.limited (reply 1) → l.warns) := by
  by_cases hw : l.warns
  · exact iff_of_true (keepsBudget_run hw) fun _ _ => hw
  · have hcons : l.attempts = 1 :: List.range' 2 l.retries := List.range'_succ
    by_cases hretries : l.Retries reply 1
    · refine iff_of_false (fun h => ?_) fun h => hw (h hretries.2 hretries.1)
      have hending := h.ending
      rw [hcons, run_crash hretries hw] at hending
      exact absurd hending (by simp)
    · refine iff_of_true ?_ fun h1 hlimited => absurd ⟨hlimited, h1⟩ hretries
      rw [hcons, run_stop hretries]
      refine ⟨?_, rfl, rfl⟩
      refine (min_first (Nat.le_refl 1) (by omega) (fun i hi hlt => absurd hi (by omega)) ?_).symm
      by_cases hr : 1 ≤ l.retries
      · exact Or.inr fun hlimited => hretries ⟨hlimited, hr⟩
      · exact Or.inl (by omega)

end Loop

end Retry
