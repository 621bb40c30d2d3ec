import OnChainEventIndexer.Concurrency.RateLimit

/-!
# Requests and deadlines

A task looks at `rate_limit_until` before and after it waits for a permit, then waits for the
limiter and sends. A deadline that was stored before its last look has passed when it sends
(`passed_of_look`); one that is stored between that look and the request need not have.
`respected_iff`: these are the only requests sent too early, in every run.

What carries it: a deadline that was stored stays covered, by the clock or by a deadline as late in
`rate_limit_until` (`covered_of_stored`).
-/

namespace OnChainEventIndexer.RateLimit

open Lts

variable {s s₀ s' : State} {a : Act} {tr pre b : List (State × Act)} {x y : State × Act}
  {t j deadline : Nat}

/-- A task that has looked: the deadlines that were stored before its last look have passed. -/
def Looked (y : State × Act) (b : List (State × Act)) (s : State) : Prop :=
  ∀ t j deadline, s.pc t = .untilReady ∨ s.pc t = .send → Stores j deadline y →
    deadline ≤ s.now ∨ ∀ z ∈ b, ¬Takes t (.wait true) z

theorem looked_step (hl : Looked y b s) (hcovered : ∀ j deadline, Stores j deadline y →
    Covered deadline s) (h : Step s a s') : Looked y (b ++ [(s, a)]) s' := by
  intro t j deadline hp hs
  have hnow := now_le h
  -- the task stood behind its look already, and this step is not another one
  have keep : (s.pc t = .untilReady ∨ s.pc t = .send) → ¬Takes t (.wait true) (s, a) →
      deadline ≤ s'.now ∨ ∀ z ∈ b ++ [(s, a)], ¬Takes t (.wait true) z := by
    intro hat hno
    rcases hl t j deadline hat hs with hle | hb
    · exact Or.inl (hle.trans hnow)
    · exact Or.inr (List.forall_mem_append.mpr ⟨hb, List.forall_mem_singleton.mpr hno⟩)
  rcases hp with hp | hp
  · rcases comes_to h hp rfl with ⟨hp, hgo⟩ | ⟨q, -, -, hnone⟩
    · exact keep (Or.inl hp) fun ht => hgo ht.1
    · -- it looks now: what covers the deadline is not ahead
      refine Or.inl ?_
      rcases hcovered j deadline hs with hle | ⟨u, hu, hle⟩
      · exact hle.trans hnow
      · exact hle.trans ((Cooldown.le_of_clearExpired hnone hu).trans hnow)
  · rcases comes_to h hp rfl with ⟨hp, hgo⟩ | ⟨q, hq, rfl⟩
    · exact keep (Or.inr hp) fun ht => hgo ht.1
    · exact keep (Or.inl hq.2) fun ht => absurd (hq.2.symm.trans ht.2) (by simp)

theorem looked_run (h : Run Step s₀ tr s) (hy : y :: b <:+ tr) : Looked y b s :=
  h.since (fun _ _ _ _ _ _ _ _ _ => Or.inr fun _ hz => absurd hz List.not_mem_nil)
    (fun _ _ _ _ _ _ hr hy hl hstep =>
      looked_step hl (fun _ _ hs => covered_of_stored hr hy hs) hstep) y b hy

/-- A deadline stored before the sender's last look has passed when it sends. -/
theorem passed_of_look (h : Run Step s₀ tr s) (hp : pre ++ [x] <+: tr) (hx : Takes t .send x)
    (hy : y :: b <:+ pre) (hs : Stores j deadline y) (hlook : ∃ z ∈ b, Takes t (.wait true) z) :
    deadline ≤ x.1.now := by
  rcases looked_run (h.of_prefix hp) hy t j deadline (Or.inr hx.2) hs with hle | hno
  · exact hle
  · obtain ⟨z, hz, ht⟩ := hlook
    exact absurd ht (hno z hz)

/-- No request is sent before a deadline that a task stored before it. -/
def Respected (tr : List (State × Act)) : Prop :=
  ∀ pre x t, pre ++ [x] <+: tr → Takes t .send x →
    ∀ y b j deadline, y :: b <:+ pre → Stores j deadline y → deadline ≤ x.1.now

/-- When a request is sent, the deadlines that tasks stored since the sender's last look have
passed. -/
def LateStoresPass (tr : List (State × Act)) : Prop :=
  ∀ pre x t, pre ++ [x] <+: tr → Takes t .send x →
    ∀ y b j deadline, y :: b <:+ pre → Stores j deadline y →
      (∀ z ∈ b, ¬Takes t (.wait true) z) → deadline ≤ x.1.now

/-- **The cooldown is respected** in exactly the runs in which no deadline that is stored between a
task's last look at the cooldown and its request is still ahead at the request. -/
theorem respected_iff {maxConcurrent now : Nat} (h : Run Step (init maxConcurrent now) tr s) :
    Respected tr ↔ LateStoresPass tr := by
  constructor
  · exact fun hr pre x t hp hx y b j deadline hy hs _ => hr pre x t hp hx y b j deadline hy hs
  · intro hl pre x t hp hx y b j deadline hy hs
    by_cases hlook : ∃ z ∈ b, Takes t (.wait true) z
    · exact passed_of_look h hp hx hy hs hlook
    · exact hl pre x t hp hx y b j deadline hy hs fun z hz ht => hlook ⟨z, hz, ht⟩

/-- A request by task `t` from its call to its response. -/
def request (t : Nat) : List Act :=
  [.call t .sendRpcRequest, .go t, .go t, .go t, .go t, .go t, .go t]

/-- Task 1 is told to wait ten seconds and registers it; task 0 waits them out and sends. -/
theorem respected_iff_sleeper : ∃ tr s, Run Step (init 1 0) tr s ∧
    (∃ y ∈ tr, Stores 1 (fromSecs 10) y) ∧ (∃ x ∈ tr, Takes 0 .send x) ∧
      (Respected tr ↔ LateStoresPass tr) := by
  obtain ⟨tr, s, hr, -, htest⟩ := exists_run_of_exec step (init 1 0)
    (request 1 ++ [.call 1 (.registerRateLimit (some (fromSecs 10))), .go 1, .go 1, .go 1,
      .call 0 .sendRpcRequest, .go 0, .tick (fromSecs 10), .go 0, .go 0, .go 0, .go 0, .go 0, .go 0])
    (fun tr _ => decide ((∃ y ∈ tr, Stores 1 (fromSecs 10) y) ∧ ∃ x ∈ tr, Takes 0 .send x))
    (by decide +kernel)
  obtain ⟨hstored, hsent⟩ := of_decide_eq_true htest
  exact ⟨tr, s, hr, hstored, hsent, respected_iff hr⟩

/-- At one request a second: task 1 sends, task 0 looks and waits for the limiter. Task 1 is told
to wait ten seconds and registers it; the limiter lets task 0 send after one. -/
def overtaken : List Act :=
  [.call 1 .sendRpcRequest, .go 1, .go 1, .go 1, .go 1, .go 1,
    .call 0 .sendRpcRequest, .go 0, .go 0, .go 0,
    .tick (fromMillis 100), .go 1,
    .call 1 (.registerRateLimit (some (fromSecs 10))), .go 1, .go 1, .go 1,
    .tick (fromMillis 900), .go 0, .go 0]

theorem not_respected_overtaken : ∃ tr s, Run Step (init 2 0) tr s ∧ ¬Respected tr := by
  obtain ⟨tr, s, hr, -, htest⟩ := exists_run_of_exec step (init 2 0) overtaken
    (fun tr _ => (tr[14]?.any fun y => decide (Stores 1 (fromMillis 10100) y)) &&
      tr[18]?.any fun x => decide (Takes 0 .send x ∧ x.1.now < fromMillis 10100))
    (by decide +kernel)
  refine ⟨tr, s, hr, fun h => ?_⟩
  simp only [Bool.and_eq_true, Option.any_eq_true, decide_eq_true_eq] at htest
  obtain ⟨⟨y, hy, hstores⟩, x, hx, htakes, hlt⟩ := htest
  obtain ⟨pre, b, hpre, hb⟩ := exists_split hy hx (by decide)
  exact absurd (h pre x 0 hpre htakes y b 1 _ hb hstores) (Nat.not_le_of_lt hlt)

end OnChainEventIndexer.RateLimit
