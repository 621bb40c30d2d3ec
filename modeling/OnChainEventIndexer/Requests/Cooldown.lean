import Mathlib.Data.List.DropRight
import OnChainEventIndexer.Backoff

/-!
# The rate-limit cooldown

The state that all tasks of a `HeliusApi` share (`rate_limit_until`, `last_rate_limit_at`,
`rate_limit_backoff`), the critical sections that read and write it, and the two functions made of
them run by one task alone: `register_rate_limit` and `reset_rate_limit_backoff_if_idle`. Tasks
that interleave are `Concurrency/RateLimit.lean`.

An `Instant` is a number of nanoseconds up to `instantMax`, `checked_add` fails above it and
`register_rate_limit` then stores the present. `parse_retry_after_at` reads the header value as
`http` and `core` do (visible ASCII, trimmed, a date or a `u64`); `parse_from_rfc2822` is `chrono`'s
and stays a parameter.

* `longerWaits_iff`: exactly when of two accepted `Retry-After` values the longer one gives the
  later deadline. It does unless the longer one alone leaves the range of `Instant`.
-/

namespace OnChainEventIndexer

/-! ## `Retry-After` -/

/-- `HeaderValue::to_str`: visible ASCII and tabs only. -/
def headerToStr (value : List UInt8) : Option (List Char) :=
  if value.all fun b => (32 ≤ b && b < 127) || b == 9 then
    some (value.map fun b => Char.ofNat b.toNat)
  else none

/-- `str::trim` -/
def trim (value : List Char) : List Char :=
  (value.dropWhile Char.isWhitespace).rdropWhile Char.isWhitespace

/-- `str::parse::<u64>`: an optional plus, then decimal digits only, within the range. -/
def parseU64 (value : List Char) : Option Nat :=
  let digits := match value with
    | '+' :: cs => cs
    | cs => cs
  if digits.isEmpty || !digits.all Char.isDigit then none
  else
    let n := digits.foldl (fun acc c => acc * 10 + (c.toNat - '0'.toNat)) 0
    if n < 2 ^ 64 then some n else none

/-- `parse_retry_after_at`. A date that has passed asks for no wait. (Both timestamps are `chrono`'s,
whose range is far within `i64`: their difference does not overflow.) -/
def parseRetryAfterAt (parseFromRfc2822 : String → Option Int) (header : Option (List UInt8))
    (nowTs : Int) : Option Nat := do
  let value ← header
  let value := trim (← headerToStr value)
  match parseFromRfc2822 (String.ofList value) with
  | some timestamp => some (fromSecs (timestamp - nowTs).toNat)
  | none =>
    let seconds ← parseU64 value
    some (fromSecs seconds)

/-! ## Deadlines -/

/-- The last `Instant` (on Linux, a signed 64-bit number of seconds). -/
def instantMax : Nat := fromSecs (2 ^ 63 - 1) + 999999999

/-- `Instant::checked_add` -/
def checkedAdd (now delay : Nat) : Option Nat :=
  if now + delay ≤ instantMax then some (now + delay) else none

/-- The deadline `register_rate_limit` computes. -/
def untilAt (now delay : Nat) : Nat := (checkedAdd now delay).getD now

theorem untilAt_of_le {now delay : Nat} (h : now + delay ≤ instantMax) :
    untilAt now delay = now + delay := by
  simp [untilAt, checkedAdd, h]

theorem untilAt_of_lt {now delay : Nat} (h : instantMax < now + delay) : untilAt now delay = now := by
  simp [untilAt, checkedAdd, Nat.not_le.mpr h]

/-! ## The shared state -/

/-- The fields of `HeliusApi` that its calls share. -/
structure Cooldown where
  rateLimitUntil : Option Nat
  lastRateLimitAt : Option Nat
  rateLimitBackoff : WorkerBackoff
deriving DecidableEq

/-- `Duration::from_secs(5)` -/
def fiveSeconds : Nat := fromSecs 5

namespace Cooldown

/-- `HeliusApi::new` -/
def new : Cooldown := ⟨none, none, WorkerBackoff.new 500 10000 2⟩

/-- A waiter, and the idle test, remove a deadline that is not ahead. -/
def clearExpired (c : Cooldown) (now : Nat) : Cooldown :=
  match c.rateLimitUntil with
  | some deadline => if now < deadline then c else { c with rateLimitUntil := none }
  | none => c

/-- A later deadline replaces the current one. -/
def storeUntil (c : Cooldown) (deadline : Nat) : Cooldown :=
  match c.rateLimitUntil with
  | some currentUntil =>
    if deadline ≤ currentUntil then c else { c with rateLimitUntil := some deadline }
  | none => { c with rateLimitUntil := some deadline }

/-- `last_rate_limit_at` is now `now`. -/
def storeLast (c : Cooldown) (now : Nat) : Cooldown := { c with lastRateLimitAt := some now }

/-- `last_rl.is_none_or(|at| at.elapsed() > Duration::from_secs(5))` -/
def shouldReset (c : Cooldown) (now : Nat) : Bool :=
  match c.lastRateLimitAt with
  | some last => decide (fiveSeconds < now - last)
  | none => true

/-- `rate_limit_backoff.step_and_get_sleep_duration()` -/
def stepBackoff (c : Cooldown) (jitter : Rat) : Cooldown × Nat :=
  let (backoff, delay) := c.rateLimitBackoff.stepAndGetSleepDuration jitter
  ({ c with rateLimitBackoff := backoff }, delay)

/-- `rate_limit_backoff.reset()` -/
def resetBackoff (c : Cooldown) : Cooldown :=
  { c with rateLimitBackoff := c.rateLimitBackoff.reset }

/-- `register_rate_limit`, called at `now`: the state it leaves and the delay it returns. -/
def registerRateLimit (c : Cooldown) (now : Nat) (jitter : Rat) (retryAfter : Option Nat) :
    Cooldown × Nat :=
  let (c, delay) := match retryAfter.filter (· ≠ 0) with
    | some delay => (c, delay)
    | none => c.stepBackoff jitter
  ((c.storeUntil (untilAt now delay)).storeLast now, delay)

/-- `reset_rate_limit_backoff_if_idle`, called at `now`. -/
def resetRateLimitBackoffIfIdle (c : Cooldown) (now : Nat) : Cooldown :=
  let c := c.clearExpired now
  if c.rateLimitUntil.isSome then c
  else if c.shouldReset now then c.resetBackoff else c

variable {c : Cooldown} {now deadline : Nat}

/-- The deadlines that stay are ahead. -/
theorem mem_clearExpired :
    deadline ∈ (c.clearExpired now).rateLimitUntil ↔ deadline ∈ c.rateLimitUntil ∧
    now < deadline := by
  unfold clearExpired
  cases hu : c.rateLimitUntil with
  | none => simp [hu]
  | some current =>
    simp only
    split
    · rename_i hlt
      rw [hu, Option.mem_some_iff]
      exact ⟨fun h => ⟨h, h ▸ hlt⟩, fun h => h.1⟩
    · rename_i hlt
      simp only [Option.not_mem_none, Option.mem_some_iff, false_iff]
      rintro ⟨rfl, h⟩
      exact hlt h

/-- What is stored is the later of the two deadlines. -/
theorem mem_storeUntil {stored : Nat} : stored ∈ (c.storeUntil deadline).rateLimitUntil ↔
    stored ∈ c.rateLimitUntil ∧ deadline ≤ stored ∨
      stored = deadline ∧ ∀ current ∈ c.rateLimitUntil, current < deadline := by
  unfold storeUntil
  cases hu : c.rateLimitUntil with
  | none => simp [eq_comm]
  | some current =>
    simp only
    split
    · rename_i hle
      rw [hu]
      simp only [Option.mem_some_iff, forall_eq']
      constructor
      · rintro rfl
        exact Or.inl ⟨rfl, hle⟩
      · rintro (h | h)
        · exact h.1
        · omega
    · rename_i hle
      simp only [Option.mem_some_iff, forall_eq']
      constructor
      · rintro rfl
        exact Or.inr ⟨rfl, by omega⟩
      · rintro (h | h)
        · omega
        · exact h.1.symm

theorem storeUntil_until (c : Cooldown) (deadline : Nat) :
    (c.storeUntil deadline).rateLimitUntil = some (max (c.rateLimitUntil.getD 0) deadline) := by
  unfold storeUntil
  cases hu : c.rateLimitUntil with
  | none => simp
  | some current =>
    simp only [Option.getD_some]
    split
    · rename_i hle
      rw [hu, max_eq_left hle]
    · rename_i hle
      rw [max_eq_right (by omega)]

/-- A look that leaves no deadline found none that is ahead. -/
theorem le_of_clearExpired (h : (c.clearExpired now).rateLimitUntil = none)
    (hu : deadline ∈ c.rateLimitUntil) : deadline ≤ now := by
  by_contra hlt
  have hmem := mem_clearExpired.mpr ⟨hu, Nat.lt_of_not_le hlt⟩
  rw [h] at hmem
  exact absurd hmem (by simp)

theorem old_of_shouldReset (h : c.shouldReset now = true) {last : Nat}
    (hl : last ∈ c.lastRateLimitAt) : last + fiveSeconds < now := by
  unfold shouldReset at h
  rw [Option.mem_def.mp hl, decide_eq_true_eq] at h
  omega

@[simp] theorem clearExpired_lastRateLimitAt (c : Cooldown) (now : Nat) :
    (c.clearExpired now).lastRateLimitAt = c.lastRateLimitAt := by
  unfold clearExpired
  split
  · split <;> rfl
  · rfl

@[simp] theorem storeUntil_lastRateLimitAt (c : Cooldown) (deadline : Nat) :
    (c.storeUntil deadline).lastRateLimitAt = c.lastRateLimitAt := by
  unfold storeUntil
  split
  · split <;> rfl
  · rfl

theorem registerRateLimit_until {jitter : Rat} {delay : Nat} (hd : delay ≠ 0) :
    (c.registerRateLimit now jitter (some delay)).1.rateLimitUntil =
      some (max (c.rateLimitUntil.getD 0) (untilAt now delay)) := by
  have hfilter : (some delay).filter (· ≠ 0) = some delay := by simp [Option.filter, hd]
  simp only [registerRateLimit, hfilter]
  exact storeUntil_until c _

/-- Above the range the deadline falls back to the present, below any deadline of the future. -/
theorem max_untilAt_le_iff {current d₁ d₂ : Nat} (hpos : d₁ ≠ 0) (hle : d₁ ≤ d₂) :
    max current (untilAt now d₁) ≤ max current (untilAt now d₂) ↔
      instantMax < now + d₁ ∨ now + d₂ ≤ instantMax ∨ now + d₁ ≤ current := by
  rcases Nat.lt_or_ge instantMax (now + d₁) with h₁ | h₁
  · rw [untilAt_of_lt h₁, untilAt_of_lt (by omega)]
    exact iff_of_true (Nat.le_refl _) (Or.inl h₁)
  · rw [untilAt_of_le h₁]
    rcases Nat.lt_or_ge instantMax (now + d₂) with h₂ | h₂
    · rw [untilAt_of_lt h₂]
      omega
    · rw [untilAt_of_le h₂]
      omega

/-- Of two registrations at `now` the second one stores the later deadline, and both keep the
current one. -/
def LongerWaits (c : Cooldown) (now : Nat) (jitter : Rat) (retryAfter₁ retryAfter₂ : Option Nat) :
    Prop :=
  ∃ u₁ ∈ (c.registerRateLimit now jitter retryAfter₁).1.rateLimitUntil,
    ∃ u₂ ∈ (c.registerRateLimit now jitter retryAfter₂).1.rateLimitUntil,
      u₁ ≤ u₂ ∧ ∀ current ∈ c.rateLimitUntil, current ≤ u₁ ∧ current ≤ u₂

/-- **The longer of two accepted `Retry-After` values gives the later deadline** if and only if it
does not leave the range of `Instant` alone, or the current deadline hides both. -/
theorem longerWaits_iff {parseFromRfc2822 : String → Option Int}
    {header₁ header₂ : Option (List UInt8)} {ts₁ ts₂ : Int} {d₁ d₂ : Nat} {jitter : Rat}
    (h₁ : parseRetryAfterAt parseFromRfc2822 header₁ ts₁ = some d₁)
    (h₂ : parseRetryAfterAt parseFromRfc2822 header₂ ts₂ = some d₂) (hpos : d₁ ≠ 0)
    (hle : d₁ ≤ d₂) :
    c.LongerWaits now jitter (parseRetryAfterAt parseFromRfc2822 header₁ ts₁)
        (parseRetryAfterAt parseFromRfc2822 header₂ ts₂) ↔
      instantMax < now + d₁ ∨ now + d₂ ≤ instantMax ∨
        ∃ current ∈ c.rateLimitUntil, now + d₁ ≤ current := by
  have hpos₂ : d₂ ≠ 0 := by omega
  unfold LongerWaits
  simp only [h₁, h₂, registerRateLimit_until hpos, registerRateLimit_until hpos₂,
    Option.mem_some_iff, exists_eq_left']
  cases hu : c.rateLimitUntil with
  | none =>
    rw [Option.getD_none, max_untilAt_le_iff hpos hle]
    simp only [Option.not_mem_none, false_implies, implies_true, and_true, false_and, exists_false,
      or_false]
    omega
  | some current =>
    rw [Option.getD_some, max_untilAt_le_iff hpos hle]
    simp only [Option.mem_some_iff, forall_eq', exists_eq_left', le_max_left, and_true]

/-- Ten seconds and two, from a server that names the seconds. -/
theorem longerWaits_iff_seconds :
    parseRetryAfterAt (fun _ => none) (some [50]) 0 = some (fromSecs 2) ∧
      parseRetryAfterAt (fun _ => none) (some [49, 48]) 0 = some (fromSecs 10) ∧
      Cooldown.new.LongerWaits 7 0 (parseRetryAfterAt (fun _ => none) (some [50]) 0)
        (parseRetryAfterAt (fun _ => none) (some [49, 48]) 0) := by
  have h₁ : parseRetryAfterAt (fun _ => none) (some [50]) 0 = some (fromSecs 2) := by decide +kernel
  have h₂ : parseRetryAfterAt (fun _ => none) (some [49, 48]) 0 = some (fromSecs 10) := by
    decide +kernel
  refine ⟨h₁, h₂, (longerWaits_iff h₁ h₂ (by decide) (by decide)).mpr (Or.inr (Or.inl ?_))⟩
  decide

/-- The largest value that is accepted, 18446744073709551615. -/
def largestRetryAfter : List UInt8 :=
  [49, 56, 52, 52, 54, 55, 52, 52, 48, 55, 51, 55, 48, 57, 53, 53, 49, 54, 49, 53]

/-- `Retry-After: 1` sets a cooldown of one second, the largest value sets none. -/
theorem not_longerWaits_largest : ∃ header₁ header₂ d₁ d₂,
    parseRetryAfterAt (fun _ => none) header₁ 0 = some d₁ ∧
      parseRetryAfterAt (fun _ => none) header₂ 0 = some d₂ ∧ d₁ ≠ 0 ∧ d₁ ≤ d₂ ∧
      ¬Cooldown.new.LongerWaits (fromSecs 1000) 0
        (parseRetryAfterAt (fun _ => none) header₁ 0)
        (parseRetryAfterAt (fun _ => none) header₂ 0) := by
  refine ⟨some [49], some largestRetryAfter, fromSecs 1, fromSecs (2 ^ 64 - 1), by decide +kernel,
    by decide +kernel, by decide, by decide, ?_⟩
  rintro ⟨u₁, hu₁, u₂, hu₂, hle, -⟩
  have h₁ : (Cooldown.new.registerRateLimit (fromSecs 1000) 0
      (parseRetryAfterAt (fun _ => none) (some [49]) 0)).1.rateLimitUntil =
      some (fromSecs 1001) := by decide +kernel
  have h₂ : (Cooldown.new.registerRateLimit (fromSecs 1000) 0
      (parseRetryAfterAt (fun _ => none) (some largestRetryAfter) 0)).1.rateLimitUntil =
      some (fromSecs 1000) := by decide +kernel
  obtain rfl := Option.some.inj (h₁.symm.trans hu₁)
  obtain rfl := Option.some.inj (h₂.symm.trans hu₂)
  exact absurd (fromSecs_le.mp hle) (by decide)

end Cooldown

end OnChainEventIndexer
