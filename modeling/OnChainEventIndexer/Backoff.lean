import OnChainEventIndexer.Lib.Run
import Mathlib.Algebra.Order.Ring.Rat
import Mathlib.Data.Nat.Cast.Order.Field
import Mathlib.Tactic.Linarith

/-!
# Backoff

`backoff.rs`: an equal-jitter backoff. `step_and_get_sleep_duration` sleeps between half the
current delay and all of it, and multiplies the delay up to its maximum; `reset` takes it back to
the minimum.

The delays are milliseconds, `f64` in the source and exact rationals here; the client's own
(500, 10000, doubled) are integers that `f64` represents exactly. The draw of
`rand::random_range` is an argument, and `draws` says which draws there are. A `Duration` is a
number of nanoseconds.

* `run_eq_after`: after `k` steps the delay is `min max (min * multiplier ^ k)`.
* **`backoff_bounds`**: in every run of steps and resets it grows between the bounds, and the sleep
  lies between half of it and all of it, as far as a `u64` of milliseconds goes (`sleep_saturates`).
-/

namespace OnChainEventIndexer

open Lts

/-- `Duration::from_secs` -/
def fromSecs (secs : Nat) : Nat := secs * 1000000000

/-- `Duration::from_millis` -/
def fromMillis (millis : Nat) : Nat := millis * 1000000

theorem fromSecs_le {a b : Nat} : fromSecs a ≤ fromSecs b ↔ a ≤ b := by
  unfold fromSecs
  omega

/-- The fields of `WorkerBackoff`, in milliseconds. -/
structure WorkerBackoff where
  minDelay : Rat
  maxDelay : Rat
  currentDelay : Rat
  multiplier : Rat
deriving DecidableEq

namespace WorkerBackoff

/-- `WorkerBackoff::new` -/
def new (minDelay maxDelay multiplier : Rat) : WorkerBackoff where
  minDelay := minDelay
  maxDelay := maxDelay
  currentDelay := minDelay
  multiplier := max multiplier 1

/-- `WorkerBackoff::reset` -/
def reset (b : WorkerBackoff) : WorkerBackoff := { b with currentDelay := b.minDelay }

/-- `f64::round`: to the nearest integer, halves away from zero. -/
def round (x : Rat) : Rat :=
  if 0 ≤ x then ((x + 1 / 2).floor : Rat) else -((-x + 1 / 2).floor : Rat)

/-- `jitter` can be drawn: from `0.0..half_delay`, or zero where that range is empty. -/
def draws (b : WorkerBackoff) (jitter : Rat) : Bool :=
  if 0 < b.currentDelay / 2 then decide (0 ≤ jitter ∧ jitter < b.currentDelay / 2)
  else decide (jitter = 0)

theorem draws_zero (b : WorkerBackoff) : b.draws 0 = true := by
  unfold draws
  split
  · rename_i hpos
    exact decide_eq_true ⟨le_refl 0, hpos⟩
  · exact decide_eq_true rfl

/-- `sleep_ms as u64` truncates, and saturates. -/
def asU64 (x : Rat) : Nat := min x.floor.toNat (2 ^ 64 - 1)

/-- `WorkerBackoff::step_and_get_sleep_duration`, with the jitter it draws. -/
def stepAndGetSleepDuration (b : WorkerBackoff) (jitter : Rat) : WorkerBackoff × Nat :=
  let halfDelay := b.currentDelay / 2
  let sleepMs := max (halfDelay + jitter) 1
  let currentDelay := min (max (round (b.currentDelay * b.multiplier)) b.minDelay) b.maxDelay
  ({ b with currentDelay := currentDelay }, fromMillis (asU64 sleepMs))

/-! ## Runs -/

/-- The two methods that change it. -/
inductive Call
  | step (jitter : Rat)
  | reset

/-- A call changes the backoff, with a draw that can happen. -/
def call (b : WorkerBackoff) : Call → Option WorkerBackoff
  | .step jitter => if b.draws jitter then some (b.stepAndGetSleepDuration jitter).1 else none
  | .reset => some b.reset

/-- The calls as a relation. -/
def CallStep (b : WorkerBackoff) (c : Call) (b' : WorkerBackoff) : Prop := b.call c = some b'

/-- The steps since the construction, or the last reset. -/
def stepsSinceReset (tr : List (WorkerBackoff × Call)) : Nat :=
  tr.foldl (fun k x => match x.2 with | .step _ => k + 1 | .reset => 0) 0

/-- The delay after `k` steps. -/
def delayAfter (minDelay maxDelay multiplier k : Nat) : Nat :=
  min maxDelay (minDelay * multiplier ^ k)

/-- What holds of a backoff after `k` steps. -/
structure BackoffBounds (minDelay maxDelay multiplier k : Nat) (b : WorkerBackoff) : Prop where
  current : b.currentDelay = delayAfter minDelay maxDelay multiplier k
  within : minDelay ≤ b.currentDelay ∧ b.currentDelay ≤ maxDelay
  grows : ∀ jitter, b.draws jitter = true →
    b.currentDelay ≤ (b.stepAndGetSleepDuration jitter).1.currentDelay
  /-- The longest sleep is `u64::MAX` milliseconds. -/
  atLeast : ∀ jitter, b.draws jitter = true →
    fromMillis (min (max 1 (delayAfter minDelay maxDelay multiplier k / 2)) (2 ^ 64 - 1)) ≤
      (b.stepAndGetSleepDuration jitter).2
  atMost : ∀ jitter, b.draws jitter = true →
    (b.stepAndGetSleepDuration jitter).2 ≤ fromMillis (delayAfter minDelay maxDelay multiplier k)

variable {minDelay maxDelay multiplier : Nat}

/-! ### The delay -/

theorem round_natCast (n : Nat) : round (n : Rat) = n := by
  have hfloor : ((n : Rat) + 1 / 2).floor = n := by
    refine Int.le_antisymm (Int.le_of_lt_add_one (Rat.floor_lt_iff.mpr ?_)) (Rat.le_floor_iff.mpr ?_)
    · push_cast
      linarith
    · push_cast
      linarith
  unfold round
  rw [if_pos (Nat.cast_nonneg n), hfloor]
  norm_cast

theorem delayAfter_zero (hmin : minDelay ≤ maxDelay) :
    delayAfter minDelay maxDelay multiplier 0 = minDelay := by
  unfold delayAfter
  rw [Nat.pow_zero, Nat.mul_one, Nat.min_eq_right hmin]

theorem le_delayAfter (hmin : minDelay ≤ maxDelay) (hmul : 1 ≤ multiplier) (k : Nat) :
    minDelay ≤ delayAfter minDelay maxDelay multiplier k :=
  Nat.le_min.mpr ⟨hmin, Nat.le_mul_of_pos_right _ (Nat.pow_pos hmul)⟩

theorem delayAfter_le (k : Nat) : delayAfter minDelay maxDelay multiplier k ≤ maxDelay :=
  Nat.min_le_left _ _

/-- **One step**, where nothing is rounded and the lower clamp does nothing. At the maximum the delay
stays. -/
theorem delayAfter_succ (hmin : minDelay ≤ maxDelay) (hmul : 1 ≤ multiplier) (k : Nat) :
    min (max (delayAfter minDelay maxDelay multiplier k * multiplier) minDelay) maxDelay =
      delayAfter minDelay maxDelay multiplier (k + 1) := by
  have hgrows : delayAfter minDelay maxDelay multiplier k ≤
      delayAfter minDelay maxDelay multiplier k * multiplier := Nat.le_mul_of_pos_right _ hmul
  rw [Nat.max_eq_left ((le_delayAfter hmin hmul k).trans hgrows)]
  unfold delayAfter at hgrows ⊢
  rw [Nat.pow_succ, ← Nat.mul_assoc]
  rcases Nat.le_total (minDelay * multiplier ^ k) maxDelay with hle | hle
  · rw [Nat.min_eq_right hle, Nat.min_comm]
  · rw [Nat.min_eq_left hle] at hgrows ⊢
    rw [Nat.min_eq_right hgrows, Nat.min_eq_left]
    exact hle.trans (Nat.le_mul_of_pos_right _ hmul)

theorem delayAfter_le_succ (hmin : minDelay ≤ maxDelay) (hmul : 1 ≤ multiplier) (k : Nat) :
    delayAfter minDelay maxDelay multiplier k ≤ delayAfter minDelay maxDelay multiplier (k + 1) := by
  rw [← delayAfter_succ hmin hmul]
  exact Nat.le_min.mpr ⟨(Nat.le_mul_of_pos_right _ hmul).trans (Nat.le_max_left _ _), delayAfter_le k⟩

/-- The backoff after `k` steps. -/
def after (minDelay maxDelay multiplier k : Nat) : WorkerBackoff where
  minDelay := minDelay
  maxDelay := maxDelay
  currentDelay := delayAfter minDelay maxDelay multiplier k
  multiplier := multiplier

theorem new_eq_after (hmin : minDelay ≤ maxDelay) (hmul : 1 ≤ multiplier) :
    new minDelay maxDelay multiplier = after minDelay maxDelay multiplier 0 := by
  have hmul' : (1 : Rat) ≤ multiplier := by exact_mod_cast hmul
  unfold new after
  rw [delayAfter_zero hmin, max_eq_left hmul']

theorem reset_after (hmin : minDelay ≤ maxDelay) (k : Nat) :
    (after minDelay maxDelay multiplier k).reset = after minDelay maxDelay multiplier 0 := by
  unfold reset after
  rw [delayAfter_zero hmin]

theorem step_after (hmin : minDelay ≤ maxDelay) (hmul : 1 ≤ multiplier) (k : Nat) (jitter : Rat) :
    ((after minDelay maxDelay multiplier k).stepAndGetSleepDuration jitter).1 =
      after minDelay maxDelay multiplier (k + 1) := by
  unfold stepAndGetSleepDuration after
  simp only
  rw [← Nat.cast_mul, round_natCast, ← Nat.cast_max, ← Nat.cast_min, delayAfter_succ hmin hmul]

/-- **The delay in every run.** -/
theorem run_eq_after (hmin : minDelay ≤ maxDelay) (hmul : 1 ≤ multiplier)
    {tr : List (WorkerBackoff × Call)} {b : WorkerBackoff}
    (hr : Run CallStep (new minDelay maxDelay multiplier) tr b) :
    b = after minDelay maxDelay multiplier (stepsSinceReset tr) := by
  induction hr with
  | refl => exact new_eq_after hmin hmul
  | @tail tr b b' c _ hs ih =>
    unfold stepsSinceReset at ih ⊢
    rw [List.foldl_append, List.foldl_cons, List.foldl_nil]
    unfold CallStep at hs
    subst ih
    cases c with
    | step jitter =>
      simp only [call] at hs
      split at hs
      · rw [← Option.some.inj hs, step_after hmin hmul]
      · exact absurd hs (by simp)
    | reset => exact (Option.some.inj hs).symm.trans (reset_after hmin _)

/-! ### The sleep -/

theorem le_asU64 {x : Rat} {n : Nat} (h : (n : Rat) ≤ x) : min n (2 ^ 64 - 1) ≤ asU64 x := by
  have hfloor : (n : Int) ≤ x.floor := Rat.le_floor_iff.mpr (by exact_mod_cast h)
  unfold asU64
  omega

theorem asU64_le {x : Rat} {n : Nat} (h : x ≤ n) : asU64 x ≤ n := by
  have hfloor : x.floor ≤ n := by
    have hle : (x.floor : Rat) ≤ n := (Rat.floor_le x).trans h
    exact_mod_cast hle
  unfold asU64
  omega

theorem fromMillis_le {a b : Nat} (h : a ≤ b) : fromMillis a ≤ fromMillis b :=
  Nat.mul_le_mul_right _ h

/-- A draw is less than half the delay. -/
theorem draw_bounds {b : WorkerBackoff} {jitter : Rat} (h : b.draws jitter = true)
    (hb : 0 < b.currentDelay) : 0 ≤ jitter ∧ jitter < b.currentDelay / 2 := by
  unfold draws at h
  rw [if_pos (half_pos hb)] at h
  exact of_decide_eq_true h

/-- The sleep after `k` steps, where the delays fit into a `u64`. -/
theorem sleep_after (hpos : 1 ≤ minDelay) (hmin : minDelay ≤ maxDelay) (hmax : maxDelay ≤ 2 ^ 64 - 1)
    (hmul : 1 ≤ multiplier) {k : Nat} {jitter : Rat}
    (hj : (after minDelay maxDelay multiplier k).draws jitter = true) :
    fromMillis (delayAfter minDelay maxDelay multiplier k / 2) ≤
        ((after minDelay maxDelay multiplier k).stepAndGetSleepDuration jitter).2 ∧
      ((after minDelay maxDelay multiplier k).stepAndGetSleepDuration jitter).2 ≤
        fromMillis (delayAfter minDelay maxDelay multiplier k) := by
  have hlow := le_delayAfter hmin hmul k
  have hhigh : delayAfter minDelay maxDelay multiplier k ≤ maxDelay := delayAfter_le k
  have hdelay : (1 : Rat) ≤ (after minDelay maxDelay multiplier k).currentDelay :=
    Nat.one_le_cast.mpr (hpos.trans hlow)
  obtain ⟨hzero, hlt⟩ := draw_bounds hj (by linarith)
  constructor
  · have hhalf : ((delayAfter minDelay maxDelay multiplier k / 2 : Nat) : Rat) ≤
        (after minDelay maxDelay multiplier k).currentDelay / 2 := Nat.cast_div_le
    have hsum : ((delayAfter minDelay maxDelay multiplier k / 2 : Nat) : Rat) ≤
        (after minDelay maxDelay multiplier k).currentDelay / 2 + jitter := by linarith
    have hle := le_asU64
      (x := max ((after minDelay maxDelay multiplier k).currentDelay / 2 + jitter) 1)
      (le_max_of_le_left hsum)
    rw [Nat.min_eq_left (by omega)] at hle
    exact fromMillis_le hle
  · have hsum : (after minDelay maxDelay multiplier k).currentDelay / 2 + jitter ≤
        (after minDelay maxDelay multiplier k).currentDelay := by linarith
    exact fromMillis_le (asU64_le (max_le hsum hdelay))

/-- **A backoff grows within its bounds**: after `k` steps since the construction or the last reset
the delay is `min maxDelay (minDelay * multiplier ^ k)`, and the next sleep is between half of it
and all of it, in whole milliseconds and at least one; but not longer than `u64::MAX`. -/
theorem backoff_bounds (hpos : 1 ≤ minDelay) (hmin : minDelay ≤ maxDelay) (hmul : 1 ≤ multiplier)
    {tr : List (WorkerBackoff × Call)} {b : WorkerBackoff}
    (hr : Run CallStep (new minDelay maxDelay multiplier) tr b) :
    BackoffBounds minDelay maxDelay multiplier (stepsSinceReset tr) b := by
  obtain rfl := run_eq_after hmin hmul hr
  generalize stepsSinceReset tr = k
  have hlow : (minDelay : Rat) ≤ (after minDelay maxDelay multiplier k).currentDelay :=
    Nat.cast_le.mpr (le_delayAfter hmin hmul k)
  have hdelay : (1 : Rat) ≤ (after minDelay maxDelay multiplier k).currentDelay :=
    (Nat.one_le_cast.mpr hpos).trans hlow
  refine ⟨rfl, ⟨hlow, Nat.cast_le.mpr (delayAfter_le k)⟩, fun jitter _ => ?_,
    fun jitter hj => fromMillis_le (le_asU64 ?_), fun jitter hj => fromMillis_le (asU64_le ?_)⟩
  · rw [step_after hmin hmul]
    exact Nat.cast_le.mpr (delayAfter_le_succ hmin hmul k)
  · obtain ⟨hzero, -⟩ := draw_bounds hj (by linarith)
    have hhalf : ((delayAfter minDelay maxDelay multiplier k / 2 : Nat) : Rat) ≤
        (after minDelay maxDelay multiplier k).currentDelay / 2 := Nat.cast_div_le
    rw [Nat.cast_max, max_comm, Nat.cast_one]
    exact max_le_max_right 1 (by linarith)
  · obtain ⟨-, hlt⟩ := draw_bounds hj (by linarith)
    have hsum : (after minDelay maxDelay multiplier k).currentDelay / 2 + jitter ≤
        (after minDelay maxDelay multiplier k).currentDelay := by linarith
    exact max_le hsum hdelay

/-- The client's backoff after a step, a reset and two more. -/
theorem backoff_bounds_client :
    ∃ tr b, Run CallStep (new (500 : Nat) (10000 : Nat) (2 : Nat)) tr b ∧ b.currentDelay = 2000 ∧
      BackoffBounds 500 10000 2 (stepsSinceReset tr) b := by
  obtain ⟨tr, b, hr, -, htest⟩ := exists_run_of_exec call (new (500 : Nat) (10000 : Nat) (2 : Nat))
    [.step 7, .reset, .step 0, .step (1 / 3)] (fun _ b => b.currentDelay = 2000) (by decide +kernel)
  exact ⟨tr, b, hr, of_decide_eq_true htest, backoff_bounds (by decide) (by decide) (by decide) hr⟩

/-- **A sleep shorter than half the delay**: `2^66` milliseconds, which a `u64` does not hold. -/
theorem sleep_saturates :
    ∃ tr b, Run CallStep (new (2 ^ 66 : Nat) (2 ^ 66 : Nat) (1 : Nat)) tr b ∧ b.draws 0 = true ∧
      ¬fromMillis (max 1 (delayAfter (2 ^ 66) (2 ^ 66) 1 (stepsSinceReset tr) / 2)) ≤
        (b.stepAndGetSleepDuration 0).2 :=
  ⟨[], _, Run.refl, by decide +kernel, by decide +kernel⟩

end WorkerBackoff

end OnChainEventIndexer
