import OnChainEventIndexer.Lib.Run
import OnChainEventIndexer.Requests.Cooldown
import OnChainEventIndexer.Requests.Retries

/-!
# Tasks that share a cooldown

Any number of tasks call `send_rpc_request`, `register_rate_limit` and
`reset_rate_limit_backoff_if_idle` on one `HeliusApi`. Each critical section of
`Requests/Cooldown.lean` is one step, and so are the end of a sleep, the semaphore, the limiter,
the request and its response; in between any other task may step and the clock may pass (`tick`).
The calls of a task come in any order, which covers those of the two request loops.

* `governor`'s `until_ready` lets a task pass at any step: the limiter only delays.
* The semaphore is never closed, so `acquire_owned` does not fail.
* The permit is given back when the response has been read, or the request has failed.

`step_cases` says what a step can do, `Effect` what it does to the shared state and `comes_to` how
a task comes to where it stands; the runs of `Respected.lean` and `Escalation.lean` need no more.
`covered_of_stored`: a deadline that was stored is never lost. `register_alone` and `reset_alone`
connect the steps of a task that nobody interrupts with the functions of `Requests/Cooldown.lean`.
-/

namespace OnChainEventIndexer.RateLimit

open Lts

/-- Where a task stands: before its next step. -/
inductive Pc
  | idle
  /-- `wait_for_rate_limit_cooldown` locks `rate_limit_until`, without or with a permit. -/
  | wait (permit : Bool)
  | sleep (permit : Bool) (deadline : Nat)
  | acquire
  | untilReady
  | send
  | respond
  | stepBackoff
  | computeUntil (delay : Nat)
  | storeUntil (deadline : Nat)
  | storeLast
  | checkUntil
  | checkLast
  | resetBackoff
deriving DecidableEq

/-- The first step of a call. A wait of zero counts as none. -/
def entry : Call → Pc
  | .sendRpcRequest => .wait false
  | .registerRateLimit retryAfter =>
    match retryAfter.filter (· ≠ 0) with
    | some delay => .computeUntil delay
    | none => .stepBackoff
  | .resetRateLimitBackoffIfIdle => .checkUntil

/-- The clock, the free permits, the shared cooldown and each task. -/
structure State where
  now : Nat
  permits : Nat
  cooldown : Cooldown
  pc : Nat → Pc

/-- No task has called yet. -/
def init (maxConcurrent now : Nat) : State := ⟨now, maxConcurrent, Cooldown.new, fun _ => .idle⟩

/-- What may happen next. -/
inductive Act
  | tick (d : Nat)
  | call (t : Nat) (c : Call)
  /-- The critical section that steps the backoff, with the jitter it draws. -/
  | draw (t : Nat) (jitter : Rat)
  | go (t : Nat)
deriving DecidableEq

/-- What a step of a task leaves behind. -/
structure After where
  permits : Nat
  cooldown : Cooldown
  pc : Pc

/-- The step of a task that stands at `p`; `none` while it cannot go on. -/
def advance (s : State) : Pc → Option After
  | .idle => none
  | .stepBackoff => none
  | .wait permit =>
    let cooldown := s.cooldown.clearExpired s.now
    some ⟨s.permits, cooldown, match cooldown.rateLimitUntil with
      | some deadline => .sleep permit deadline
      | none => if permit then .untilReady else .acquire⟩
  | .sleep permit deadline =>
    if deadline ≤ s.now then some ⟨s.permits, s.cooldown, .wait permit⟩ else none
  | .acquire => if 0 < s.permits then some ⟨s.permits - 1, s.cooldown, .wait true⟩ else none
  | .untilReady => some ⟨s.permits, s.cooldown, .send⟩
  | .send => some ⟨s.permits, s.cooldown, .respond⟩
  | .respond => some ⟨s.permits + 1, s.cooldown, .idle⟩
  | .computeUntil delay => some ⟨s.permits, s.cooldown, .storeUntil (untilAt s.now delay)⟩
  | .storeUntil deadline => some ⟨s.permits, s.cooldown.storeUntil deadline, .storeLast⟩
  | .storeLast => some ⟨s.permits, s.cooldown.storeLast s.now, .idle⟩
  | .checkUntil =>
    let cooldown := s.cooldown.clearExpired s.now
    some ⟨s.permits, cooldown, if cooldown.rateLimitUntil.isSome then .idle else .checkLast⟩
  | .checkLast =>
    some ⟨s.permits, s.cooldown, if s.cooldown.shouldReset s.now then .resetBackoff else .idle⟩
  | .resetBackoff => some ⟨s.permits, s.cooldown.resetBackoff, .idle⟩

/-- Task `t` has run up to its next lock or await. -/
def State.move (s : State) (t : Nat) (r : After) : State where
  now := s.now
  permits := r.permits
  cooldown := r.cooldown
  pc u := if u = t then r.pc else s.pc u

@[simp] theorem State.move_cooldown (s : State) (t : Nat) (r : After) :
    (s.move t r).cooldown = r.cooldown := rfl

@[simp] theorem State.move_pc (s : State) (t : Nat) (r : After) : (s.move t r).pc t = r.pc :=
  if_pos rfl

theorem State.move_pc_of_ne (s : State) (r : After) {t w : Nat} (h : w ≠ t) :
    (s.move t r).pc w = s.pc w := if_neg h

/-- **One step**: a task runs up to its next lock or await. -/
def step (s : State) : Act → Option State
  | .tick d => some { s with now := s.now + d }
  | .call t c => if s.pc t = .idle then some (s.move t ⟨s.permits, s.cooldown, entry c⟩) else none
  | .draw t jitter =>
    if s.pc t = .stepBackoff ∧ s.cooldown.rateLimitBackoff.draws jitter = true then
      let (cooldown, delay) := s.cooldown.stepBackoff jitter
      some (s.move t ⟨s.permits, cooldown, .computeUntil delay⟩)
    else none
  | .go t => (advance s (s.pc t)).map (s.move t)

/-- The steps of the tasks and of the clock. -/
def Step (s : State) (a : Act) (s' : State) : Prop := step s a = some s'

/-! ## What a step does -/

/-- Task `t` takes the step `x`, from `p`. -/
def Takes (t : Nat) (p : Pc) (x : State × Act) : Prop := x.2 = .go t ∧ x.1.pc t = p

instance {t : Nat} {p : Pc} {x : State × Act} : Decidable (Takes t p x) :=
  inferInstanceAs (Decidable (_ ∧ _))

/-- Task `t` stores the deadline: none that is as late is there. -/
def Stores (t deadline : Nat) (x : State × Act) : Prop :=
  Takes t (.storeUntil deadline) x ∧ ∀ current ∈ x.1.cooldown.rateLimitUntil, current < deadline

instance {t deadline : Nat} {x : State × Act} : Decidable (Stores t deadline x) :=
  inferInstanceAs (Decidable (_ ∧ _))

/-- Task `t` steps the backoff. -/
def Steps (t : Nat) (x : State × Act) : Prop := ∃ jitter, x.2 = .draw t jitter

/-- The steps of task `t`. -/
inductive Moves (s : State) (t : Nat) : Act → After → Prop
  | call (c : Call) (h : s.pc t = .idle) :
      Moves s t (.call t c) ⟨s.permits, s.cooldown, entry c⟩
  | draw (jitter : Rat) (h : s.pc t = .stepBackoff)
      (hd : s.cooldown.rateLimitBackoff.draws jitter = true) :
      Moves s t (.draw t jitter) ⟨s.permits, (s.cooldown.stepBackoff jitter).1,
        .computeUntil (s.cooldown.stepBackoff jitter).2⟩
  | go {r : After} (h : advance s (s.pc t) = some r) : Moves s t (.go t) r

variable {s s' : State} {a : Act}

/-- **What a step can do**: the clock passes, or a task moves. -/
theorem step_cases (h : Step s a s') :
    (∃ d, a = .tick d ∧ s' = { s with now := s.now + d }) ∨
      ∃ t r, Moves s t a r ∧ s' = s.move t r := by
  cases a with
  | tick d => exact Or.inl ⟨d, rfl, (Option.some.inj h).symm⟩
  | call t c =>
    simp only [Step, step, Option.ite_none_right_eq_some, Option.some.injEq] at h
    obtain ⟨hp, rfl⟩ := h
    exact Or.inr ⟨t, _, .call c hp, rfl⟩
  | draw t jitter =>
    simp only [Step, step, Option.ite_none_right_eq_some, Option.some.injEq] at h
    obtain ⟨⟨hp, hd⟩, rfl⟩ := h
    exact Or.inr ⟨t, _, .draw jitter hp hd, rfl⟩
  | go t =>
    obtain ⟨r, hr, rfl⟩ := Option.map_eq_some_iff.mp h
    exact Or.inr ⟨t, r, .go hr, rfl⟩

/-- What the step of a task does to the shared state. -/
inductive Effect (s : State) (t : Nat) (a : Act) : Cooldown → Prop
  | same : Effect s t a s.cooldown
  | cleared : Effect s t a (s.cooldown.clearExpired s.now)
  | stored (deadline : Nat) (h : Takes t (.storeUntil deadline) (s, a)) :
      Effect s t a (s.cooldown.storeUntil deadline)
  | recorded (h : Takes t .storeLast (s, a)) : Effect s t a (s.cooldown.storeLast s.now)
  | stepped (jitter : Rat) (h : Steps t (s, a)) : Effect s t a (s.cooldown.stepBackoff jitter).1
  | reset (h : Takes t .resetBackoff (s, a)) : Effect s t a s.cooldown.resetBackoff

variable {t : Nat} {r : After}

theorem Moves.effect (h : Moves s t a r) : Effect s t a r.cooldown := by
  cases h with
  | call c h => exact .same
  | draw jitter h hd => exact .stepped jitter ⟨jitter, rfl⟩
  | go h =>
    cases hp : s.pc t with
    | idle => rw [hp] at h; exact absurd h (by simp [advance])
    | stepBackoff => rw [hp] at h; exact absurd h (by simp [advance])
    | wait permit => rw [hp] at h; obtain rfl := Option.some.inj h; exact .cleared
    | sleep permit deadline =>
      rw [hp] at h
      obtain ⟨-, h⟩ := Option.ite_none_right_eq_some.mp h
      obtain rfl := Option.some.inj h
      exact .same
    | acquire =>
      rw [hp] at h
      obtain ⟨-, h⟩ := Option.ite_none_right_eq_some.mp h
      obtain rfl := Option.some.inj h
      exact .same
    | untilReady => rw [hp] at h; obtain rfl := Option.some.inj h; exact .same
    | send => rw [hp] at h; obtain rfl := Option.some.inj h; exact .same
    | respond => rw [hp] at h; obtain rfl := Option.some.inj h; exact .same
    | computeUntil delay => rw [hp] at h; obtain rfl := Option.some.inj h; exact .same
    | storeUntil deadline =>
      rw [hp] at h
      obtain rfl := Option.some.inj h
      exact .stored deadline ⟨rfl, hp⟩
    | storeLast => rw [hp] at h; obtain rfl := Option.some.inj h; exact .recorded ⟨rfl, hp⟩
    | checkUntil => rw [hp] at h; obtain rfl := Option.some.inj h; exact .cleared
    | checkLast => rw [hp] at h; obtain rfl := Option.some.inj h; exact .same
    | resetBackoff => rw [hp] at h; obtain rfl := Option.some.inj h; exact .reset ⟨rfl, hp⟩

/-- A deadline after a step was there, or the step stores it. -/
theorem Effect.mem {c : Cooldown} (h : Effect s t a c) {u : Nat} (hu : u ∈ c.rateLimitUntil) :
    u ∈ s.cooldown.rateLimitUntil ∨ Stores t u (s, a) := by
  cases h with
  | same => exact Or.inl hu
  | cleared => exact Or.inl (Cooldown.mem_clearExpired.mp hu).1
  | stored deadline h =>
    rcases Cooldown.mem_storeUntil.mp hu with hu | ⟨rfl, hlt⟩
    · exact Or.inl hu.1
    · exact Or.inr ⟨h, hlt⟩
  | recorded h => exact Or.inl hu
  | stepped jitter h => exact Or.inl hu
  | reset h => exact Or.inl hu

/-- A deadline before a step has passed, or one as late is there after it. -/
theorem Effect.keeps {c : Cooldown} (h : Effect s t a c) {u : Nat}
    (hu : u ∈ s.cooldown.rateLimitUntil) : u ≤ s.now ∨ ∃ v ∈ c.rateLimitUntil, u ≤ v := by
  cases h with
  | cleared =>
    rcases Nat.lt_or_ge s.now u with hlt | hle
    · exact Or.inr ⟨u, Cooldown.mem_clearExpired.mpr ⟨hu, hlt⟩, Nat.le_refl _⟩
    · exact Or.inl hle
  | stored deadline h =>
    refine Or.inr ⟨_, Cooldown.storeUntil_until _ _, ?_⟩
    rw [Option.mem_def.mp hu]
    exact le_max_left _ _
  | _ => exact Or.inr ⟨u, hu, Nat.le_refl _⟩

theorem Effect.last {c : Cooldown} (h : Effect s t a c) :
    c.lastRateLimitAt = s.cooldown.lastRateLimitAt ∨ c.lastRateLimitAt = some s.now := by
  cases h with
  | cleared => exact Or.inl (Cooldown.clearExpired_lastRateLimitAt _ _)
  | stored deadline h => exact Or.inl (Cooldown.storeUntil_lastRateLimitAt _ _)
  | recorded h => exact Or.inr rfl
  | _ => exact Or.inl rfl

theorem now_le (h : Step s a s') : s.now ≤ s'.now := by
  rcases step_cases h with ⟨d, rfl, rfl⟩ | ⟨t, r, -, rfl⟩
  · exact Nat.le_add_right _ _
  · exact Nat.le_refl _

theorem step_effect (h : Step s a s') : ∃ t, Effect s t a s'.cooldown := by
  rcases step_cases h with ⟨d, rfl, rfl⟩ | ⟨t, r, hm, rfl⟩
  · exact ⟨0, .same⟩
  · exact ⟨t, hm.effect⟩

theorem takes_advance (h : Step s a s') {p : Pc} (ht : Takes t p (s, a)) :
    ∃ r, advance s p = some r ∧ s' = s.move t r := by
  obtain ⟨rfl, rfl⟩ := ht
  obtain ⟨r, hr, rfl⟩ := Option.map_eq_some_iff.mp h
  exact ⟨r, hr, rfl⟩

theorem stores_mem (h : Step s a s') {u : Nat} (hs : Stores t u (s, a)) :
    u ∈ s'.cooldown.rateLimitUntil := by
  obtain ⟨r, hr, rfl⟩ := takes_advance h hs.1
  obtain rfl := Option.some.inj hr
  exact Cooldown.mem_storeUntil.mpr (Or.inr ⟨rfl, hs.2⟩)

/-- A call begins here, or goes on from here once it has drawn a delay. -/
def Pc.first : Pc → Bool
  | .wait false => true
  | .stepBackoff => true
  | .computeUntil _ => true
  | .checkUntil => true
  | _ => false

theorem entry_first (c : Call) : (entry c).first = true := by
  cases c with
  | sendRpcRequest => rfl
  | registerRateLimit retryAfter =>
    simp only [entry]
    cases retryAfter.filter (· ≠ 0) <;> rfl
  | resetRateLimitBackoffIfIdle => rfl

/-- Where a task that stands at these steps came from, and what it saw there. -/
def Came (s : State) (p : Pc) : Pc → Prop
  | .untilReady => p = .wait true ∧ (s.cooldown.clearExpired s.now).rateLimitUntil = none
  | .send => p = .untilReady
  | .checkLast => p = .checkUntil ∧ (s.cooldown.clearExpired s.now).rateLimitUntil = none
  | .resetBackoff => p = .checkLast ∧ s.cooldown.shouldReset s.now = true
  | _ => True

theorem advance_came {p : Pc} (h : advance s p = some r) : Came s p r.pc := by
  cases p with
  | idle => exact absurd h (by simp [advance])
  | stepBackoff => exact absurd h (by simp [advance])
  | wait permit =>
    obtain rfl := Option.some.inj h
    cases hu : (s.cooldown.clearExpired s.now).rateLimitUntil with
    | some deadline => trivial
    | none => cases permit <;> simp [hu, Came]
  | sleep permit deadline =>
    obtain ⟨-, h⟩ := Option.ite_none_right_eq_some.mp h
    obtain rfl := Option.some.inj h
    trivial
  | acquire =>
    obtain ⟨-, h⟩ := Option.ite_none_right_eq_some.mp h
    obtain rfl := Option.some.inj h
    trivial
  | untilReady => obtain rfl := Option.some.inj h; exact rfl
  | checkUntil =>
    obtain rfl := Option.some.inj h
    cases hu : (s.cooldown.clearExpired s.now).rateLimitUntil <;> simp [hu, Came]
  | checkLast =>
    obtain rfl := Option.some.inj h
    cases hr : s.cooldown.shouldReset s.now <;> simp [hr, Came]
  | _ => obtain rfl := Option.some.inj h; trivial

/-- How a task comes to a step in the middle of a call: it is there, or the step before leads
there. -/
theorem comes_to (h : Step s a s') {w : Nat} {p : Pc} (hp : s'.pc w = p)
    (hfirst : p.first = false) :
    (s.pc w = p ∧ a ≠ .go w) ∨ ∃ q, Takes w q (s, a) ∧ Came s q p := by
  rcases step_cases h with ⟨d, rfl, rfl⟩ | ⟨t, r, hm, rfl⟩
  · exact Or.inl ⟨hp, by simp⟩
  · rcases eq_or_ne w t with rfl | hne
    · have hr : r.pc = p := (s.move_pc w r).symm.trans hp
      subst hr
      cases hm with
      | call c h =>
        rw [entry_first c] at hfirst
        exact absurd hfirst (by simp)
      | draw jitter h hd => exact absurd hfirst (by simp [Pc.first])
      | go h => exact Or.inr ⟨_, ⟨rfl, rfl⟩, advance_came h⟩
    · refine Or.inl ⟨(s.move_pc_of_ne r hne).symm.trans hp, ?_⟩
      cases hm <;> simp [hne.symm]

/-! ## Stored deadlines -/

/-- The deadline has passed, or `rate_limit_until` holds one as late. -/
def Covered (deadline : Nat) (s : State) : Prop :=
  deadline ≤ s.now ∨ ∃ u ∈ s.cooldown.rateLimitUntil, deadline ≤ u

theorem Covered.step {deadline : Nat} (hc : Covered deadline s) (h : Step s a s') :
    Covered deadline s' := by
  have hnow := now_le h
  obtain ⟨t, he⟩ := step_effect h
  rcases hc with hle | ⟨u, hu, hle⟩
  · exact Or.inl (hle.trans hnow)
  · rcases he.keeps hu with hpast | ⟨v, hv, huv⟩
    · exact Or.inl (hle.trans (hpast.trans hnow))
    · exact Or.inr ⟨v, hv, hle.trans huv⟩

/-- A deadline that was stored stays covered, whatever the tasks clear and extend. -/
theorem covered_of_stored {s₀ : State} {tr b : List (State × Act)} {y : State × Act}
    {deadline : Nat} (h : Run Step s₀ tr s) (hy : y :: b <:+ tr) (hs : Stores t deadline y) :
    Covered deadline s :=
  h.since (P := fun y _ s => Stores t deadline y → Covered deadline s)
    (fun _ _ _ hstep hs => Or.inr ⟨_, stores_mem hstep hs, Nat.le_refl _⟩)
    (fun _ _ _ _ _ _ _ _ hc hstep hs => (hc hs).step hstep) y b hy hs

/-! ## Tasks alone -/

theorem go {p : Pc} (hp : s.pc t = p) (h : advance s p = some r) :
    ∃ s', Step s (.go t) s' ∧ s'.pc t = r.pc ∧ s'.cooldown = r.cooldown ∧ s'.now = s.now := by
  subst hp
  exact ⟨s.move t r, Option.map_eq_some_iff.mpr ⟨r, h, rfl⟩, s.move_pc t r, rfl, rfl⟩

theorem call_alone (hp : s.pc t = .idle) (c : Call) : ∃ s', Step s (.call t c) s' ∧
    s'.pc t = entry c ∧ s'.cooldown = s.cooldown ∧ s'.now = s.now :=
  ⟨s.move t ⟨s.permits, s.cooldown, entry c⟩, if_pos hp, s.move_pc t _, rfl, rfl⟩

theorem draw_alone (hp : s.pc t = .stepBackoff) {jitter : Rat}
    (hj : s.cooldown.rateLimitBackoff.draws jitter = true) : ∃ s', Step s (.draw t jitter) s' ∧
      s'.pc t = .computeUntil (s.cooldown.stepBackoff jitter).2 ∧
      s'.cooldown = (s.cooldown.stepBackoff jitter).1 ∧ s'.now = s.now :=
  ⟨s.move t ⟨s.permits, (s.cooldown.stepBackoff jitter).1,
    .computeUntil (s.cooldown.stepBackoff jitter).2⟩, if_pos ⟨hp, hj⟩, s.move_pc t _, rfl, rfl⟩

/-- The steps of `register_rate_limit` from the deadline on. -/
theorem register_from {delay : Nat} (hp : s.pc t = .computeUntil delay) :
    ∃ tr s', Run Step s tr s' ∧ s'.pc t = .idle ∧
      s'.cooldown = (s.cooldown.storeUntil (untilAt s.now delay)).storeLast s.now := by
  obtain ⟨s₁, h₁, hp₁, hc₁, hn₁⟩ := go hp rfl
  obtain ⟨s₂, h₂, hp₂, hc₂, hn₂⟩ := go hp₁ rfl
  obtain ⟨s₃, h₃, hp₃, hc₃, -⟩ := go hp₂ rfl
  refine ⟨_, s₃, ((Run.single h₁).tail h₂).tail h₃, hp₃, ?_⟩
  rw [hc₃, hc₂, hc₁, hn₂, hn₁]

/-- **`register_rate_limit` without interruption** is `registerRateLimit`. -/
theorem register_alone (hp : s.pc t = .idle) (retryAfter : Option Nat) {jitter : Rat}
    (hj : s.cooldown.rateLimitBackoff.draws jitter = true) :
    ∃ tr s', Run Step s ((s, .call t (.registerRateLimit retryAfter)) :: tr) s' ∧
      s'.pc t = .idle ∧ s'.cooldown = (s.cooldown.registerRateLimit s.now jitter retryAfter).1 := by
  obtain ⟨s₁, h₁, hp₁, hc₁, hn₁⟩ := call_alone hp (.registerRateLimit retryAfter)
  unfold Cooldown.registerRateLimit
  cases hf : retryAfter.filter (· ≠ 0) with
  | some delay =>
    simp only [entry, hf] at hp₁
    obtain ⟨tr, s', hr, hidle, hc⟩ := register_from hp₁
    rw [hc₁, hn₁] at hc
    exact ⟨tr, s', hr.head h₁, hidle, hc⟩
  | none =>
    simp only [entry, hf] at hp₁
    rw [← hc₁] at hj
    obtain ⟨s₂, h₂, hp₂, hc₂, hn₂⟩ := draw_alone hp₁ hj
    obtain ⟨tr, s', hr, hidle, hc⟩ := register_from hp₂
    rw [hc₂, hn₂, hc₁, hn₁] at hc
    exact ⟨_ :: tr, s', (hr.head h₂).head h₁, hidle, hc⟩

/-- **`reset_rate_limit_backoff_if_idle` without interruption** is `resetRateLimitBackoffIfIdle`. -/
theorem reset_alone (hp : s.pc t = .idle) :
    ∃ tr s', Run Step s ((s, .call t .resetRateLimitBackoffIfIdle) :: tr) s' ∧ s'.pc t = .idle ∧
      s'.cooldown = s.cooldown.resetRateLimitBackoffIfIdle s.now := by
  obtain ⟨s₁, h₁, hp₁, hc₁, hn₁⟩ := call_alone hp .resetRateLimitBackoffIfIdle
  obtain ⟨s₂, h₂, hp₂, hc₂, hn₂⟩ := go hp₁ rfl
  simp only [hc₁, hn₁] at hp₂ hc₂ hn₂
  unfold Cooldown.resetRateLimitBackoffIfIdle
  simp only
  split
  · rename_i hactive
    rw [if_pos hactive] at hp₂
    exact ⟨_, s₂, (Run.single h₂).head h₁, hp₂, hc₂⟩
  · rename_i hactive
    rw [if_neg hactive] at hp₂
    obtain ⟨s₃, h₃, hp₃, hc₃, -⟩ := go hp₂ rfl
    simp only [hc₂, hn₂] at hp₃ hc₃
    split
    · rename_i hreset
      rw [if_pos hreset] at hp₃
      obtain ⟨s₄, h₄, hp₄, hc₄, -⟩ := go hp₃ rfl
      rw [hc₃] at hc₄
      exact ⟨_, s₄, (((Run.single h₂).tail h₃).tail h₄).head h₁, hp₄, hc₄⟩
    · rename_i hreset
      rw [if_neg hreset] at hp₃
      exact ⟨_, s₃, ((Run.single h₂).tail h₃).head h₁, hp₃, hc₃⟩

end OnChainEventIndexer.RateLimit
