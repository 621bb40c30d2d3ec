import OnChainEventIndexer.Concurrency.RateLimit

/-!
# Resets and escalations

`reset_rate_limit_backoff_if_idle` looks at `rate_limit_until`, then at `last_rate_limit_at`, then
resets the backoff; `register_rate_limit` steps the backoff first and writes `last_rate_limit_at`
last. A step that was recorded before the reset read the record is more than five seconds old when
the backoff is reset (`old_of_read`); one that was not need not be. `escalationKept_iff`: the
steps and the deadlines that come in between are the only ones a reset overlooks, in every run.
-/

namespace OnChainEventIndexer.RateLimit

open Lts

variable {s s₀ s' : State} {a : Act} {tr pre b : List (State × Act)} {x y : State × Act}
  {w j : Nat}

/-! ## Steps of the backoff -/

/-- In `b`, task `w` does not read `last_rate_limit_at` after task `j` has written it. -/
def Unread (w j : Nat) (b : List (State × Act)) : Prop :=
  b.Pairwise fun p q => Takes j .storeLast p → ¬Takes w .checkLast q

/-- What is known of a step `y` and the steps `b` since. -/
structure Recorded (y : State × Act) (b : List (State × Act)) (s : State) : Prop where
  clock : y.1.now ≤ s.now
  recorded : ∀ j, (∃ z ∈ b, Takes j .storeLast z) →
    ∃ last ∈ s.cooldown.lastRateLimitAt, y.1.now ≤ last
  unread : ∀ w j, s.pc w = .resetBackoff → y.1.now + fiveSeconds < s.now ∨ Unread w j b

theorem recorded_new (h : Step s a s') : Recorded (s, a) [] s' where
  clock := now_le h
  recorded _ := fun ⟨_, hz, _⟩ => absurd hz List.not_mem_nil
  unread _ _ _ := Or.inr List.Pairwise.nil

theorem last_step (h : Step s a s') :
    s'.cooldown.lastRateLimitAt = s.cooldown.lastRateLimitAt ∨
      s'.cooldown.lastRateLimitAt = some s.now := by
  obtain ⟨t, he⟩ := step_effect h
  exact he.last

theorem storeLast_last (h : Step s a s') (ht : Takes j .storeLast (s, a)) :
    s'.cooldown.lastRateLimitAt = some s.now := by
  obtain ⟨r, hr, rfl⟩ := takes_advance h ht
  obtain rfl := Option.some.inj hr
  rfl

theorem recorded_step (hr : Recorded y b s) (h : Step s a s') : Recorded y (b ++ [(s, a)]) s' where
  clock := hr.clock.trans (now_le h)
  recorded j := by
    rintro ⟨z, hz, ht⟩
    rcases List.mem_append.mp hz with hz | hz
    · rcases last_step h with hlast | hlast
      · rw [hlast]
        exact hr.recorded j ⟨z, hz, ht⟩
      · exact ⟨s.now, hlast, hr.clock⟩
    · obtain rfl := List.mem_singleton.mp hz
      exact ⟨s.now, storeLast_last h ht, hr.clock⟩
  unread w j hp := by
    have hnow := now_le h
    rcases comes_to h hp rfl with ⟨hp, hgo⟩ | ⟨q, hq, rfl, hreset⟩
    · rcases hr.unread w j hp with hold | hb
      · exact Or.inl (by omega)
      · refine Or.inr (List.pairwise_append.mpr ⟨hb, List.pairwise_singleton _ _, ?_⟩)
        intro p _ q hq _ ht
        obtain rfl := List.mem_singleton.mp hq
        exact hgo ht.1
    · by_cases hrec : ∃ z ∈ b, Takes j .storeLast z
      · obtain ⟨last, hl, hle⟩ := hr.recorded j hrec
        have hold := Cooldown.old_of_shouldReset hreset hl
        exact Or.inl (by omega)
      · -- nothing is recorded before this read
        refine Or.inr (List.pairwise_of_forall_mem_list fun p hpm q _ ht _ => ?_)
        rcases List.mem_append.mp hpm with hpm | hpm
        · exact hrec ⟨p, hpm, ht⟩
        · obtain rfl := List.mem_singleton.mp hpm
          obtain rfl := Act.go.inj (hq.1.symm.trans ht.1)
          exact absurd (hq.2.symm.trans ht.2) (by simp)

theorem recorded_run (h : Run Step s₀ tr s) (hy : y :: b <:+ tr) : Recorded y b s :=
  h.since (fun _ _ _ => recorded_new) (fun _ _ _ _ _ _ _ _ hr hstep => recorded_step hr hstep) y b hy

/-- A step that was recorded before the read that a reset follows is more than five seconds old
when the backoff is reset. -/
theorem old_of_read (h : Run Step s₀ tr s) (hp : pre ++ [x] <+: tr) (hx : Takes w .resetBackoff x)
    (hy : y :: b <:+ pre) (hread : ¬Unread w j b) : y.1.now + fiveSeconds < x.1.now :=
  ((recorded_run (h.of_prefix hp) hy).unread w j hx.2).resolve_right hread

/-! ## Deadlines -/

/-- While task `w` decides, a deadline that is ahead was stored since it looked. -/
def Decided (tr : List (State × Act)) (s : State) : Prop :=
  ∀ w, s.pc w = .checkLast ∨ s.pc w = .resetBackoff → ∀ u ∈ s.cooldown.rateLimitUntil,
    u ≤ s.now ∨ ∃ y b j, y :: b <:+ tr ∧ Stores j u y ∧ ∀ z ∈ b, ¬Takes w .checkUntil z

theorem decided_step (hd : Decided tr s) (h : Step s a s') : Decided (tr ++ [(s, a)]) s' := by
  intro w hp u hu
  -- the task had looked before, and this step is not another look
  have keep : (s.pc w = .checkLast ∨ s.pc w = .resetBackoff) → ¬Takes w .checkUntil (s, a) →
      u ≤ s'.now ∨ ∃ y b j, y :: b <:+ tr ++ [(s, a)] ∧ Stores j u y ∧
        ∀ z ∈ b, ¬Takes w .checkUntil z := by
    intro hat hno
    obtain ⟨t, he⟩ := step_effect h
    rcases he.mem hu with hu | hs
    · rcases hd w hat u hu with hle | ⟨y, b, j, hy, hs, hb⟩
      · exact Or.inl (hle.trans (now_le h))
      · exact Or.inr ⟨y, b ++ [(s, a)], j, cons_suffix_concat.mpr (Or.inr ⟨b, rfl, hy⟩), hs,
          List.forall_mem_append.mpr ⟨hb, List.forall_mem_singleton.mpr hno⟩⟩
    · exact Or.inr ⟨(s, a), [], t, cons_suffix_concat.mpr (Or.inl ⟨rfl, rfl⟩), hs,
        fun _ hz => absurd hz List.not_mem_nil⟩
  rcases hp with hp | hp
  · rcases comes_to h hp rfl with ⟨hp, hgo⟩ | ⟨q, hq, rfl, hnone⟩
    · exact keep (Or.inl hp) fun ht => hgo ht.1
    · -- it looks now, and no deadline is left
      obtain ⟨r, hr, rfl⟩ := takes_advance h hq
      obtain rfl := Option.some.inj hr
      rw [State.move_cooldown, hnone] at hu
      exact absurd hu (by simp)
  · rcases comes_to h hp rfl with ⟨hp, hgo⟩ | ⟨q, hq, rfl, -⟩
    · exact keep (Or.inr hp) fun ht => hgo ht.1
    · exact keep (Or.inl hq.2) fun ht => absurd (hq.2.symm.trans ht.2) (by simp)

theorem decided_run {maxConcurrent now : Nat} (h : Run Step (init maxConcurrent now) tr s) :
    Decided tr s :=
  h.invariant_trace (fun _ _ _ hu => absurd hu (by simp [init, Cooldown.new]))
    fun _ _ _ _ _ hd hstep => decided_step hd hstep

/-! ## Escalations -/

/-- Whenever a task resets the backoff, no task stepped it in the five seconds before and no
cooldown is active. -/
def EscalationKept (tr : List (State × Act)) : Prop :=
  ∀ pre x w, pre ++ [x] <+: tr → Takes w .resetBackoff x →
    (∀ y b j, y :: b <:+ pre → Steps j y → y.1.now + fiveSeconds < x.1.now) ∧
      ∀ u ∈ x.1.cooldown.rateLimitUntil, u ≤ x.1.now

/-- Whenever a task resets the backoff, the steps that it has not read a record of are more than
five seconds old, and the deadlines stored since it looked have passed. -/
def NothingOverlooked (tr : List (State × Act)) : Prop :=
  ∀ pre x w, pre ++ [x] <+: tr → Takes w .resetBackoff x →
    (∀ y b j, y :: b <:+ pre → Steps j y → Unread w j b → y.1.now + fiveSeconds < x.1.now) ∧
      ∀ y b j deadline, y :: b <:+ pre → Stores j deadline y →
        (∀ z ∈ b, ¬Takes w .checkUntil z) → deadline ≤ x.1.now

/-- **No escalation is lost** in exactly the runs in which no reset overlooks one: neither a step
of the backoff whose record comes after the read that the reset follows, nor a deadline stored after
its look. -/
theorem escalationKept_iff {maxConcurrent now : Nat} (h : Run Step (init maxConcurrent now) tr s) :
    EscalationKept tr ↔ NothingOverlooked tr := by
  constructor
  · intro hk pre x w hp hx
    obtain ⟨hold, hpast⟩ := hk pre x w hp hx
    refine ⟨fun y b j hy hs _ => hold y b j hy hs, fun y b j deadline hy hs _ => ?_⟩
    rcases covered_of_stored (h.of_prefix hp) hy hs with hle | ⟨u, hu, hle⟩
    · exact hle
    · exact hle.trans (hpast u hu)
  · intro hn pre x w hp hx
    obtain ⟨hold, hpast⟩ := hn pre x w hp hx
    constructor
    · intro y b j hy hs
      by_cases hread : Unread w j b
      · exact hold y b j hy hs hread
      · exact old_of_read h hp hx hy hread
    · intro u hu
      rcases decided_run (h.of_prefix hp) w (Or.inr hx.2) u hu with hle | ⟨y, b, j, hy, hs, hb⟩
      · exact hle
      · exact hpast y b j u hy hs hb

/-- `register_rate_limit` without a `Retry-After`, by task `t`. -/
def register (t : Nat) : List Act :=
  [.call t (.registerRateLimit none), .draw t 0, .go t, .go t, .go t]

/-- Task 1 registers a rate limit; task 0 resets the backoff six seconds later. -/
theorem escalationKept_iff_later : ∃ tr s, Run Step (init 1 0) tr s ∧
    (∃ y ∈ tr, Steps 1 y) ∧ (∃ x ∈ tr, Takes 0 .resetBackoff x) ∧
      (EscalationKept tr ↔ NothingOverlooked tr) := by
  obtain ⟨tr, s, hr, -, htest⟩ := exists_run_of_exec step (init 1 0)
    (register 1 ++ [.tick (fromSecs 6), .call 0 .resetRateLimitBackoffIfIdle, .go 0, .go 0, .go 0])
    (fun tr _ => decide ((∃ y ∈ tr, y.2 = .draw 1 0) ∧ ∃ x ∈ tr, Takes 0 .resetBackoff x))
    (by decide +kernel)
  obtain ⟨⟨y, hy, hdraw⟩, hreset⟩ := of_decide_eq_true htest
  exact ⟨tr, s, hr, ⟨y, hy, 0, hdraw⟩, hreset, escalationKept_iff hr⟩

/-- Task 0 finds no cooldown and no rate limit recorded; before it resets the backoff, task 1
steps it and registers its first rate limit. -/
def overlooked : List Act :=
  [.call 0 .resetRateLimitBackoffIfIdle, .go 0, .go 0] ++ register 1 ++ [.go 0]

theorem not_escalationKept_overlooked :
    ∃ tr s, Run Step (init 1 0) tr s ∧ ¬EscalationKept tr := by
  obtain ⟨tr, s, hr, -, htest⟩ := exists_run_of_exec step (init 1 0) overlooked
    (fun tr _ => (tr[4]?.any fun y => decide (y.2 = Act.draw 1 0)) &&
      tr[8]?.any fun x => decide (Takes 0 .resetBackoff x ∧ x.1.now = 0))
    (by decide +kernel)
  refine ⟨tr, s, hr, fun h => ?_⟩
  simp only [Bool.and_eq_true, Option.any_eq_true, decide_eq_true_eq] at htest
  obtain ⟨⟨y, hy, hdraw⟩, x, hx, htakes, hnow⟩ := htest
  obtain ⟨pre, b, hpre, hb⟩ := exists_split hy hx (by decide)
  have hold := (h pre x 0 hpre htakes).1 y b 1 hb ⟨0, hdraw⟩
  omega

end OnChainEventIndexer.RateLimit
