import OnChainEventIndexer.Backoff
import OnChainEventIndexer.Lib.Retry
import Mathlib.Algebra.Order.BigOperators.Group.List

/-!
# Connecting to the database

`Database::new`: the pool is tried again up to five times, with a backoff in between. It is a loop of
`Lib/Retry.lean`; what comes on top are the sleeps.

* `connect_record`: the loop as an instance of `Retry.Loop`.
* **`connect_keepsBudget`**: how often it connects, what it returns and how long it waits.
-/

namespace OnChainEventIndexer

open Retry

/-- An error with the `context` it was given. -/
structure ConnectError where
  context : String
  source : String
deriving DecidableEq

/-- `retry_count + 1` is the number of attempts. -/
def connectContext (retryCount : Nat) : String :=
  "failed to connect to database after " ++ toString (retryCount + 1) ++ " attempts"

/-- What the loop has done when it returns. -/
structure Connecting (π : Type) where
  result : Except ConnectError π
  connects : Nat
  /-- Nanoseconds. -/
  sleeps : List Nat

variable {π : Type}

/-- The loop of `Database::new`. The `k`-th attempt returns `connect k`; `left` is
`max_retries - retry_count`. -/
def connectLoop (connect : Nat → Except String π) (jitter : Nat → Rat) (backoff : WorkerBackoff)
    (retryCount : Nat) : Nat → Connecting π
  | 0 =>
    match connect (retryCount + 1) with
    | .ok pool => ⟨.ok pool, 1, []⟩
    | .error err => ⟨.error ⟨connectContext retryCount, err⟩, 1, []⟩
  | left + 1 =>
    match connect (retryCount + 1) with
    | .ok pool => ⟨.ok pool, 1, []⟩
    | .error _ =>
      let (backoff, delay) := backoff.stepAndGetSleepDuration (jitter retryCount)
      let rest := connectLoop connect jitter backoff (retryCount + 1) left
      { rest with connects := rest.connects + 1, sleeps := delay :: rest.sleeps }

/-- `Database::new`, with `max_retries = 5` and `WorkerBackoff::new(500.0, 5_000.0, 2.0)`. -/
def Database.new (connect : Nat → Except String π) (jitter : Nat → Rat) : Connecting π :=
  connectLoop connect jitter (.new (500 : Nat) (5000 : Nat) (2 : Nat)) 0 5

/-- The draws of the backoff are possible ones. -/
def Draws (jitter : Nat → Rat) : Prop :=
  ∀ k, k < 5 → (WorkerBackoff.after 500 5000 2 k).draws (jitter k) = true

/-- The milliseconds of the `k`-th delay. -/
abbrev connectDelay (k : Nat) : Nat := WorkerBackoff.delayAfter 500 5000 2 k

/-! ## A loop that retries -/

/-- What an attempt determines when none is left. -/
def connectOutcome : Except String π → Except ConnectError π
  | .ok pool => .ok pool
  | .error err => .error ⟨connectContext 5, err⟩

/-- A failed connection is tried again; the warning can always be written. -/
def connectRetries (π : Type) : Loop (Except String π) (Except ConnectError π) where
  retries := 5
  limited r := ∃ err, r = .error err
  outcome := connectOutcome
  warns := True

/-- ...as a record of the library. -/
def Connecting.record (c : Connecting π) : Record (Except ConnectError π) :=
  ⟨c.connects, c.sleeps.length, .returned c.result⟩

/-- **The record of the loop** is that of the library's. -/
theorem connect_record (connect : Nat → Except String π) (jitter : Nat → Rat) {left retryCount : Nat}
    (h : retryCount + left = 5) (backoff : WorkerBackoff) :
    (connectLoop connect jitter backoff retryCount left).record =
      (connectRetries π).run connect (List.range' (retryCount + 1) (left + 1)) := by
  induction left generalizing retryCount backoff with
  | zero =>
    obtain rfl : retryCount = 5 := h
    have hstop : ¬(connectRetries π).Retries connect (5 + 1) := fun hr =>
      absurd hr.2 (Nat.not_succ_le_self 5)
    rw [List.range'_succ, Loop.run_stop hstop]
    unfold connectLoop connectRetries connectOutcome
    cases connect (5 + 1) <;> rfl
  | succ left ih =>
    rw [List.range'_succ]
    unfold connectLoop
    cases hc : connect (retryCount + 1) with
    | ok pool =>
      have hstop : ¬(connectRetries π).Retries connect (retryCount + 1) := by
        rintro ⟨⟨err, he⟩, -⟩
        exact absurd (hc.symm.trans he) (by simp)
      rw [Loop.run_stop hstop, hc]
      rfl
    | error err =>
      have hgo : (connectRetries π).Retries connect (retryCount + 1) :=
        ⟨⟨err, hc⟩, show retryCount + 1 ≤ 5 by omega⟩
      have hleft : retryCount + 1 + left = 5 := by omega
      rw [Loop.run_go hgo trivial, ← ih hleft (backoff.stepAndGetSleepDuration (jitter retryCount)).1]
      rfl

/-! ## The sleeps -/

/-- The `k`-th sleep lies between half the delay and all of it. -/
def SleepWithin (k d : Nat) : Prop :=
  fromMillis (connectDelay k / 2) ≤ d ∧ d ≤ fromMillis (connectDelay k)

theorem sleeps_within (connect : Nat → Except String π) {jitter : Nat → Rat} (hd : Draws jitter)
    {left retryCount : Nat} (h : retryCount + left = 5) :
    List.Forall₂ SleepWithin
      (List.range' retryCount (connectLoop connect jitter (.after 500 5000 2 retryCount) retryCount
        left).sleeps.length)
      (connectLoop connect jitter (.after 500 5000 2 retryCount) retryCount left).sleeps := by
  induction left generalizing retryCount with
  | zero =>
    unfold connectLoop
    cases connect (retryCount + 1) <;> exact .nil
  | succ left ih =>
    unfold connectLoop
    cases connect (retryCount + 1) with
    | ok pool => exact .nil
    | error err =>
      have hsleep := WorkerBackoff.sleep_after (by decide) (by decide) (by decide) (by decide)
        (hd retryCount (by omega))
      simp only
      rw [WorkerBackoff.step_after (by decide) (by decide), List.length_cons, List.range'_succ]
      exact .cons hsleep (ih (by omega))

/-- All delays together. -/
theorem sum_connectDelay_le : ∀ n, n ≤ 5 →
    ((List.range' 0 n).map fun k => fromMillis (connectDelay k)).sum ≤ fromMillis 12500 := by
  decide

/-- **What `Database::new` promises**, whatever the attempts return and whichever delays are drawn: it
connects until it succeeds, six times at most; it returns the pool or the last error with its
context; before the retry `k` it sleeps between half of `min 5000 (500 * 2 ^ k)` ms and all of it,
and so not longer than 12.5 seconds in all. -/
theorem connect_keepsBudget (connect : Nat → Except String π) {jitter : Nat → Rat}
    (hd : Draws jitter) :
    KeepsBudget (connectRetries π) connect (Database.new connect jitter).record ∧
      List.Forall₂ SleepWithin (List.range' 0 (Database.new connect jitter).sleeps.length)
        (Database.new connect jitter).sleeps ∧
      (Database.new connect jitter).sleeps.sum ≤ fromMillis 12500 := by
  have hbudget : KeepsBudget (connectRetries π) connect (Database.new connect jitter).record := by
    unfold Database.new
    rw [connect_record connect jitter rfl]
    exact Loop.keepsBudget_run trivial
  have hsleeps : List.Forall₂ SleepWithin (List.range' 0 (Database.new connect jitter).sleeps.length)
      (Database.new connect jitter).sleeps := by
    unfold Database.new
    rw [WorkerBackoff.new_eq_after (by decide) (by decide)]
    exact sleeps_within connect hd rfl
  refine ⟨hbudget, hsleeps, ?_⟩
  have hcount : (Database.new connect jitter).sleeps.length ≤ 5 := by
    have hsent := hbudget.sent.le.trans (min_le_left _ _)
    have hle : (Database.new connect jitter).record.sent ≤ 5 + 1 := Nat.cast_le.mp hsent
    have hregistered : (Database.new connect jitter).sleeps.length + 1 =
        (Database.new connect jitter).record.sent := hbudget.registered
    omega
  refine le_trans ?_ (sum_connectDelay_le _ hcount)
  refine List.Forall₂.sum_le_sum ?_
  rw [List.forall₂_map_right_iff]
  exact hsleeps.flip.imp fun _ _ hwithin => hwithin.2

/-- A database that comes up at the third attempt. -/
theorem connect_keepsBudget_third :
    let connect : Nat → Except String Unit := fun k => if k < 3 then .error "refused" else .ok ()
    (Database.new connect fun _ => 0).connects = 3 ∧
      KeepsBudget (connectRetries Unit) connect (Database.new connect fun _ => 0).record ∧
      List.Forall₂ SleepWithin (List.range' 0 (Database.new connect fun _ => 0).sleeps.length)
        (Database.new connect fun _ => 0).sleeps ∧
      (Database.new connect fun _ => 0).sleeps.sum ≤ fromMillis 12500 := by
  intro connect
  exact ⟨by decide +kernel, connect_keepsBudget connect fun k _ => WorkerBackoff.draws_zero _⟩

end OnChainEventIndexer
