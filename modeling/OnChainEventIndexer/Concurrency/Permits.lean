import OnChainEventIndexer.Concurrency.RateLimit
import OnChainEventIndexer.Lib.Crew
import OnChainEventIndexer.Lib.Pace

/-!
# Permits and the request rate

What the semaphore and the limiter achieve together, in every run of the tasks of
`Concurrency/RateLimit.lean`.

* `permits_kept`: no permit is lost or made up, so that at most `max_concurrent` requests are on
  their way.
* **`request_rate`**: the limiter alone does not bound the rate of the requests, since a task that
  it has let pass may send late; but only `max_concurrent` tasks may.

`governor`'s limiter with a burst of one lets two tasks pass at least one replenish interval apart:
`Quota` says it of a run.
-/

namespace OnChainEventIndexer.RateLimit

open Lts Pace

/-- The task has a permit: from `acquire_owned` to the end of `send_rpc_request`. -/
def Pc.holdsPermit : Pc → Bool
  | .wait permit => permit
  | .sleep permit _ => permit
  | .untilReady => true
  | .send => true
  | .respond => true
  | _ => false

/-- The limiter has let the task pass, it has not sent yet. -/
def Pc.passed : Pc → Bool
  | .send => true
  | _ => false

/-- The step `go` of a task that stands at `p`. -/
def goesFrom (p : Pc) : State × Act → Bool
  | (s, .go t) => s.pc t = p
  | _ => false

/-- The times at which the limiter lets a task pass. -/
def grants (tr : List (State × Act)) : List Nat :=
  (tr.filter (goesFrom .untilReady)).map fun x => x.1.now

/-- The requests sent. -/
def sends (tr : List (State × Act)) : Nat := tr.countP (goesFrom .send)

/-- `Quota::per_second(rps)`: the nanoseconds between two tasks. -/
def replenishInterval (rps : Nat) : Nat := 1000000000 / rps

/-- The limiter keeps to its quota, with a burst of one. -/
def Quota (rps : Nat) (tr : List (State × Act)) : Prop := Paced (replenishInterval rps) (grants tr)

instance (rps : Nat) (tr : List (State × Act)) : Decidable (Quota rps tr) :=
  inferInstanceAs (Decidable (Paced _ _))

/-! ## What a step does to the permits -/

variable {s s₀ s' : State} {a : Act} {t : Nat} {r : After} {tr : List (State × Act)}

theorem State.move_pc_eq (s : State) (t : Nat) (r : After) :
    (s.move t r).pc = Function.update s.pc t r.pc := by
  funext u
  exact (Function.update_apply s.pc t r.pc u).symm

theorem entry_holdsPermit (c : Call) : (entry c).holdsPermit = false ∧ (entry c).passed = false := by
  cases c with
  | sendRpcRequest => exact ⟨rfl, rfl⟩
  | registerRateLimit retryAfter =>
    simp only [entry]
    cases retryAfter.filter (· ≠ 0) <;> exact ⟨rfl, rfl⟩
  | resetRateLimitBackoffIfIdle => exact ⟨rfl, rfl⟩

/-- **What a step does to the counts**: a permit changes hands, the limiter lets a task pass, or a
task that has passed sends. -/
theorem Moves.counts (h : Moves s t a r) :
    r.permits + r.pc.holdsPermit.toNat = s.permits + (s.pc t).holdsPermit.toNat ∧
      (goesFrom .send (s, a)).toNat + r.pc.passed.toNat =
        (s.pc t).passed.toNat + (goesFrom .untilReady (s, a)).toNat := by
  cases h with
  | call c h => rw [(entry_holdsPermit c).1, (entry_holdsPermit c).2, h]; exact ⟨rfl, rfl⟩
  | draw jitter h hd => rw [h]; exact ⟨rfl, rfl⟩
  | go h =>
    simp only [goesFrom]
    cases hp : s.pc t with
    | idle => rw [hp] at h; exact absurd h (by simp [advance])
    | stepBackoff => rw [hp] at h; exact absurd h (by simp [advance])
    | wait permit =>
      rw [hp] at h
      obtain rfl := Option.some.inj h
      cases (s.cooldown.clearExpired s.now).rateLimitUntil <;> cases permit <;> exact ⟨rfl, rfl⟩
    | sleep permit deadline =>
      rw [hp] at h
      obtain ⟨-, h⟩ := Option.ite_none_right_eq_some.mp h
      obtain rfl := Option.some.inj h
      exact ⟨rfl, rfl⟩
    | acquire =>
      rw [hp] at h
      obtain ⟨hpos, h⟩ := Option.ite_none_right_eq_some.mp h
      obtain rfl := Option.some.inj h
      exact ⟨Nat.sub_add_cancel hpos, rfl⟩
    | checkUntil =>
      rw [hp] at h
      obtain rfl := Option.some.inj h
      simp only
      split <;> exact ⟨rfl, rfl⟩
    | checkLast =>
      rw [hp] at h
      obtain rfl := Option.some.inj h
      simp only
      split <;> exact ⟨rfl, rfl⟩
    | _ => rw [hp] at h; obtain rfl := Option.some.inj h; exact ⟨rfl, rfl⟩

/-! ## Runs -/

/-- What the counts of a run say of the tasks in `U`, all others being idle. -/
structure Counts (maxConcurrent : Nat) (U : Finset Nat) (tr : List (State × Act)) (s : State) :
    Prop where
  within : Crew.Within U .idle s.pc
  permits : s.permits + Crew.total U (fun p => p.holdsPermit.toNat) s.pc = maxConcurrent
  passed : (grants tr).length = sends tr + Crew.total U (fun p => p.passed.toNat) s.pc

theorem grants_snoc (tr : List (State × Act)) (x : State × Act) :
    (grants (tr ++ [x])).length = (grants tr).length + (goesFrom .untilReady x).toNat := by
  unfold grants
  rw [List.filter_append, List.map_append, List.length_append]
  cases h : goesFrom .untilReady x <;> simp [h]

theorem sends_snoc (tr : List (State × Act)) (x : State × Act) :
    sends (tr ++ [x]) = sends tr + (goesFrom .send x).toNat := by
  unfold sends
  rw [List.countP_append]
  cases h : goesFrom .send x <;> simp [h]

theorem counts_step {maxConcurrent : Nat} {U : Finset Nat} (hc : Counts maxConcurrent U tr s)
    (h : Step s a s') : ∃ U', Counts maxConcurrent U' (tr ++ [(s, a)]) s' := by
  rcases step_cases h with ⟨d, rfl, rfl⟩ | ⟨t, r, hm, rfl⟩
  · exact ⟨U, hc.within, hc.permits, by rw [grants_snoc, sends_snoc, hc.passed]; rfl⟩
  · have hmem : t ∈ insert t U := Finset.mem_insert_self t U
    have hheld := Crew.total_update (w := fun p => p.holdsPermit.toNat) (f := s.pc) hmem r.pc
    have hpassed := Crew.total_update (w := fun p => p.passed.toNat) (f := s.pc) hmem r.pc
    rw [Crew.total_insert hc.within rfl] at hheld hpassed
    obtain ⟨hpermits, hsent⟩ := hm.counts
    have hwas := hc.permits
    have hcount := hc.passed
    refine ⟨insert t U, ?_, ?_, ?_⟩
    · rw [State.move_pc_eq]
      exact hc.within.update t r.pc
    · rw [State.move_pc_eq]
      show r.permits + _ = _
      omega
    · rw [State.move_pc_eq, grants_snoc, sends_snoc]
      omega

theorem counts_run {maxConcurrent now : Nat} (h : Run Step (init maxConcurrent now) tr s) :
    ∃ U, Counts maxConcurrent U tr s :=
  h.invariant_trace (I := fun tr s => ∃ U, Counts maxConcurrent U tr s)
    ⟨∅, fun _ _ => rfl, rfl, rfl⟩ fun _ _ _ _ _ ⟨_, hc⟩ hstep => counts_step hc hstep

/-- Where the permits are. -/
structure PermitsKept (maxConcurrent : Nat) (s : State) : Prop where
  held : ∃ holders : Finset Nat, (∀ t, t ∈ holders ↔ (s.pc t).holdsPermit = true) ∧
    s.permits + holders.card = maxConcurrent
  /-- The requests on their way. -/
  onTheirWay : ∀ tasks : Finset Nat, (∀ t ∈ tasks, s.pc t = .respond) → tasks.card ≤ maxConcurrent

/-- **No permit is lost, none is made up**: in every run each one is free or held by one task, so
that no more requests are on their way than there are permits. -/
theorem permits_kept {maxConcurrent now : Nat} (h : Run Step (init maxConcurrent now) tr s) :
    PermitsKept maxConcurrent s := by
  obtain ⟨U, hc⟩ := counts_run h
  have hmem : ∀ t, t ∈ U.filter (fun t => (s.pc t).holdsPermit = true) ↔
      (s.pc t).holdsPermit = true := by
    intro t
    rw [Finset.mem_filter, and_iff_right_iff_imp]
    intro hheld
    by_contra hU
    rw [hc.within t hU] at hheld
    exact absurd hheld (by simp [Pc.holdsPermit])
  have hcard := Crew.card_members (U := U) (p := Pc.holdsPermit) (f := s.pc)
  have hpermits := hc.permits
  refine ⟨⟨_, hmem, by omega⟩, fun tasks htasks => ?_⟩
  have hsub : tasks ⊆ U.filter fun t => (s.pc t).holdsPermit = true := fun t ht =>
    (hmem t).mpr (by rw [htasks t ht]; rfl)
  have hle := Finset.card_le_card hsub
  omega

/-- One permit: task 0 has it, task 1 waits for it. -/
theorem permits_kept_waiting : ∃ tr s, Run Step (init 1 0) tr s ∧ s.pc 0 = .respond ∧
    s.pc 1 = .acquire ∧ PermitsKept 1 s := by
  obtain ⟨tr, s, hr, -, htest⟩ := exists_run_of_exec step (init 1 0)
    [.call 0 .sendRpcRequest, .go 0, .go 0, .go 0, .go 0, .go 0, .call 1 .sendRpcRequest, .go 1]
    (fun _ s => decide (s.pc 0 = .respond ∧ s.pc 1 = .acquire)) (by decide +kernel)
  obtain ⟨h0, h1⟩ := of_decide_eq_true htest
  exact ⟨tr, s, hr, h0, h1, permits_kept hr⟩

/-- **The rate of the requests.** In any part of a run that takes `d` nanoseconds, no more requests
are sent than the quota allows in this time, and one for each permit. -/
theorem request_rate {rps maxConcurrent now : Nat} (h : Run Step (init maxConcurrent now) tr s)
    (hquota : Quota rps tr) {pre part : List (State × Act)} (hpart : pre ++ part <+: tr) {d : Nat}
    (hd : ∀ x ∈ part, ∀ y ∈ part, y.1.now ≤ x.1.now + d) :
    sends part * replenishInterval rps ≤ d + (maxConcurrent + 1) * replenishInterval rps := by
  obtain ⟨u, hu⟩ := h.exists_of_prefix ((List.prefix_append pre part).trans hpart)
  obtain ⟨v, hv⟩ := h.exists_of_prefix hpart
  obtain ⟨U, hc⟩ := counts_run hu
  obtain ⟨V, hc'⟩ := counts_run hv
  -- who has passed before the part has a permit
  have hbefore : Crew.total U (fun p => p.passed.toNat) u.pc ≤ maxConcurrent := by
    have hle : Crew.total U (fun p => p.passed.toNat) u.pc ≤
        Crew.total U (fun p => p.holdsPermit.toNat) u.pc :=
      Crew.total_le fun t _ => by cases u.pc t <;> simp [Pc.passed, Pc.holdsPermit]
    have := hc.permits
    omega
  have hgrants : grants (pre ++ part) = grants pre ++ grants part := by
    unfold grants
    rw [List.filter_append, List.map_append]
  have hsends : sends (pre ++ part) = sends pre + sends part := List.countP_append
  have hcount : sends part ≤ (grants part).length + maxConcurrent := by
    have h1 := hc.passed
    have h2 := hc'.passed
    rw [hgrants, List.length_append, hsends] at h2
    omega
  have hsub : (grants part).Sublist (grants tr) := by
    obtain ⟨rest, rfl⟩ := hpart
    unfold grants
    simp only [List.filter_append, List.map_append, List.append_assoc]
    exact (List.sublist_append_left _ _).trans (List.sublist_append_right _ _)
  have hpace := (Paced.sublist hquota hsub).length_mul_le (d := d) fun a ha b hb => by
    obtain ⟨x, hx, rfl⟩ := List.mem_map.mp ha
    obtain ⟨y, hy, rfl⟩ := List.mem_map.mp hb
    exact hd x (List.mem_of_mem_filter hx) y (List.mem_of_mem_filter hy)
  calc sends part * replenishInterval rps
      ≤ ((grants part).length + maxConcurrent) * replenishInterval rps :=
        Nat.mul_le_mul_right _ hcount
    _ = (grants part).length * replenishInterval rps + maxConcurrent * replenishInterval rps :=
        Nat.add_mul _ _ _
    _ ≤ d + (maxConcurrent + 1) * replenishInterval rps := by
        rw [Nat.succ_mul]
        omega

/-- Two requests at once, at one a second: both tasks have passed the limiter before. -/
theorem request_rate_late : ∃ pre part s, Run Step (init 2 0) (pre ++ part) s ∧
    Quota 1 (pre ++ part) ∧ sends part = 2 ∧ (∀ x ∈ part, ∀ y ∈ part, y.1.now ≤ x.1.now + 0) ∧
      sends part * replenishInterval 1 ≤ 0 + (2 + 1) * replenishInterval 1 := by
  obtain ⟨tr, s, hr, -, htest⟩ := exists_run_of_exec step (init 2 0)
    [.call 0 .sendRpcRequest, .go 0, .go 0, .go 0, .go 0, .tick (fromSecs 1),
      .call 1 .sendRpcRequest, .go 1, .go 1, .go 1, .go 1, .go 0, .go 1]
    (fun tr _ => decide (Quota 1 tr ∧ sends (tr.drop 11) = 2 ∧
      ∀ x ∈ tr.drop 11, ∀ y ∈ tr.drop 11, y.1.now ≤ x.1.now + 0)) (by decide +kernel)
  obtain ⟨hquota, hsends, hd⟩ := of_decide_eq_true htest
  rw [← List.take_append_drop 11 tr] at hr hquota
  exact ⟨_, _, s, hr, hquota, hsends, hd, request_rate hr hquota (List.prefix_refl _) hd⟩

end OnChainEventIndexer.RateLimit
