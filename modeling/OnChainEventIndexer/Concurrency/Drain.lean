import OnChainEventIndexer.Concurrency.Permits

/-!
# The tasks come to an end

Do the waits of the tasks block one another, or keep one another going? A task sleeps until a
deadline, looks again, and may find a later one; with a permit in hand it keeps others waiting
meanwhile.

`stepsLeft` bounds the steps of one task: each look that finds a deadline ahead costs two more, and
only a store of another task can put one ahead again (`eases`). So once no call begins any more, the
steps of all tasks lower a common measure (`allStepsLeft_step`), and there is always one to take
(`exists_move`): **`drains_iff`**, if there is a permit at all.
-/

namespace OnChainEventIndexer.RateLimit

open Lts

/-- The task is about to store a deadline. -/
def Pc.willStore : Pc → Bool
  | .stepBackoff => true
  | .computeUntil _ => true
  | .storeUntil _ => true
  | _ => false

/-- Some deadline is later than `u`. -/
def later (deadline : Option Nat) (u : Nat) : Bool := deadline.any fun d => decide (u < d)

/-- The steps from a wait on, if nothing is stored any more: a task without a permit waits again
once it has one. -/
def waitSteps (permit : Bool) : Nat := if permit then 4 else 8

/-- The steps a task may take until its call is over, when `n` tasks are about to store. -/
def stepsLeft (now : Nat) (deadline : Option Nat) (n : Nat) : Pc → Nat
  | .idle => 0
  | .wait permit => waitSteps permit + 2 * n + 2 * (later deadline now).toNat
  | .sleep permit u => waitSteps permit + 2 * n + 1 + 2 * (later deadline u).toNat
  | .acquire => 2 * n + 7
  | .untilReady => 3
  | .send => 2
  | .respond => 1
  | .stepBackoff => 4
  | .computeUntil _ => 3
  | .storeUntil _ => 2
  | .storeLast => 1
  | .checkUntil => 3
  | .checkLast => 2
  | .resetBackoff => 1

/-- The tasks of `U` that are about to store. -/
def storing (U : Finset Nat) (s : State) : Nat := Crew.total U (fun p => p.willStore.toNat) s.pc

/-- The steps all tasks of `U` may take. -/
def allStepsLeft (U : Finset Nat) (s : State) : Nat :=
  Crew.total U (stepsLeft s.now s.cooldown.rateLimitUntil (storing U s)) s.pc

/-- The act begins a call. -/
def Act.begins : Act → Bool
  | .call _ _ => true
  | _ => false

/-- The act is a step of a call that has begun. -/
def Act.inCall : Act → Bool
  | .draw _ _ => true
  | .go _ => true
  | _ => false

/-- The calls come to an end. -/
structure Drains (s : State) : Prop where
  /-- Once no call begins any more there are only so many steps to take, -/
  ends : ∃ bound, ∀ tr s', Run (Guarded Step fun _ a => a.begins = false) s tr s' →
    tr.countP (fun x => x.2.inCall) ≤ bound
  /-- and until every call is over, at some time there is one. -/
  goesOn : (∃ t, s.pc t ≠ .idle) → ∃ d a s', Act.inCall a = true ∧
    Step { s with now := s.now + d } a s'

variable {s s' : State} {a : Act} {t : Nat} {r : After} {U : Finset Nat}

/-! ## One step -/

theorem later_eq_true {deadline : Option Nat} {u : Nat} :
    later deadline u = true ↔ ∃ d ∈ deadline, u < d := by
  unfold later
  cases deadline <;> simp

theorem later_le {deadline deadline' : Option Nat} {u u' : Nat}
    (h : ∀ d ∈ deadline', d ∈ deadline) (hu : u ≤ u') :
    (later deadline' u').toNat ≤ (later deadline u).toNat := by
  cases hl : later deadline' u' with
  | false => exact Nat.zero_le _
  | true =>
    obtain ⟨d, hd, hlt⟩ := later_eq_true.mp hl
    rw [later_eq_true.mpr ⟨d, h d hd, hu.trans_lt hlt⟩]

/-- What time, a look or a store does to the others: the deadlines ahead get no more, or there is
one store less to come. -/
theorem eases {now now' n n' : Nat} {deadline deadline' : Option Nat} (hnow : now ≤ now')
    (h : ((∀ d ∈ deadline', d ∈ deadline) ∧ n' ≤ n) ∨ n' + 1 ≤ n) (p : Pc) :
    stepsLeft now' deadline' n' p ≤ stepsLeft now deadline n p := by
  have hlook : ∀ u u', u ≤ u' →
      2 * n' + 2 * (later deadline' u').toNat ≤ 2 * n + 2 * (later deadline u).toNat := by
    intro u u' hu
    rcases h with ⟨hsub, hn⟩ | hn
    · have := later_le hsub hu
      omega
    · have := Bool.toNat_le (later deadline' u')
      omega
  cases p with
  | wait permit => have := hlook now now' hnow; simp only [stepsLeft]; omega
  | sleep permit u => have := hlook u u (Nat.le_refl u); simp only [stepsLeft]; omega
  | acquire => simp only [stepsLeft]; omega
  | _ => exact Nat.le_refl _

theorem later_some_self (d : Nat) : later (some d) d = false := by simp [later]

/-- A step from `p` that leaves `r`, while the tasks about to store go from `n` to `n'`: it takes one of
the steps of its own task away, and eases the others. -/
structure Lowers (s : State) (n n' : Nat) (p : Pc) (r : After) : Prop where
  less : stepsLeft s.now r.cooldown.rateLimitUntil n' r.pc <
    stepsLeft s.now s.cooldown.rateLimitUntil n p
  easing : ((∀ d ∈ r.cooldown.rateLimitUntil, d ∈ s.cooldown.rateLimitUntil) ∧ n' ≤ n) ∨ n' + 1 ≤ n

section Steps

variable {n n' : Nat} {permit : Bool}

theorem mem_of_clearExpired {d : Nat} (hd : d ∈ (s.cooldown.clearExpired s.now).rateLimitUntil) :
    d ∈ s.cooldown.rateLimitUntil := (Cooldown.mem_clearExpired.mp hd).1

/-- A look. The deadline it saw is the one the task waits for. -/
theorem lowers_wait (h : advance s (.wait permit) = some r)
    (hn : n' + (Pc.wait permit).willStore.toNat = n + r.pc.willStore.toNat) :
    Lowers s n n' (.wait permit) r := by
  obtain rfl := Option.some.inj h
  cases hu : (s.cooldown.clearExpired s.now).rateLimitUntil with
  | some d =>
    have hd := Cooldown.mem_clearExpired.mp (Option.mem_def.mpr hu)
    have hlater : later s.cooldown.rateLimitUntil s.now = true := later_eq_true.mpr ⟨d, hd⟩
    simp only [hu] at hn
    obtain rfl : n' = n := Nat.add_right_cancel hn
    refine ⟨?_, Or.inl ⟨fun _ => mem_of_clearExpired, Nat.le_refl _⟩⟩
    simp only [hu, stepsLeft, hlater, later_some_self, Bool.toNat_true, Bool.toNat_false]
    omega
  | none =>
    simp only [hu] at hn
    cases permit with
    | true =>
      obtain rfl : n' = n := Nat.add_right_cancel hn
      refine ⟨?_, Or.inl ⟨fun _ => mem_of_clearExpired, Nat.le_refl _⟩⟩
      simp only [stepsLeft, waitSteps, if_true]
      omega
    | false =>
      obtain rfl : n' = n := Nat.add_right_cancel hn
      refine ⟨?_, Or.inl ⟨fun _ => mem_of_clearExpired, Nat.le_refl _⟩⟩
      simp only [stepsLeft, waitSteps, Bool.false_eq_true, if_false]
      omega

/-- The end of a sleep: the deadlines ahead are ahead of the one it slept for. -/
theorem lowers_sleep {u : Nat} (h : advance s (.sleep permit u) = some r)
    (hn : n' + (Pc.sleep permit u).willStore.toNat = n + r.pc.willStore.toNat) :
    Lowers s n n' (.sleep permit u) r := by
  obtain ⟨hu, h⟩ := Option.ite_none_right_eq_some.mp h
  obtain rfl := Option.some.inj h
  obtain rfl : n' = n := Nat.add_right_cancel hn
  have hlater := later_le (fun d (hd : d ∈ s.cooldown.rateLimitUntil) => hd) hu
  refine ⟨?_, Or.inl ⟨fun d hd => hd, Nat.le_refl _⟩⟩
  simp only [stepsLeft]
  omega

theorem lowers_acquire (h : advance s .acquire = some r)
    (hn : n' + Pc.acquire.willStore.toNat = n + r.pc.willStore.toNat) :
    Lowers s n n' .acquire r := by
  obtain ⟨-, h⟩ := Option.ite_none_right_eq_some.mp h
  obtain rfl := Option.some.inj h
  obtain rfl : n' = n := Nat.add_right_cancel hn
  have hone := Bool.toNat_le (later s.cooldown.rateLimitUntil s.now)
  refine ⟨?_, Or.inl ⟨fun d hd => hd, Nat.le_refl _⟩⟩
  simp only [stepsLeft, waitSteps, if_true]
  omega

theorem lowers_checkUntil (h : advance s .checkUntil = some r)
    (hn : n' + Pc.checkUntil.willStore.toNat = n + r.pc.willStore.toNat) :
    Lowers s n n' .checkUntil r := by
  obtain rfl := Option.some.inj h
  cases hu : (s.cooldown.clearExpired s.now).rateLimitUntil.isSome with
  | true =>
    simp only [hu, if_true] at hn ⊢
    exact ⟨Nat.succ_pos 2, Or.inl ⟨fun _ => mem_of_clearExpired, Nat.le_of_eq hn⟩⟩
  | false =>
    simp only [hu, Bool.false_eq_true, if_false] at hn ⊢
    exact ⟨Nat.lt_succ_self 2, Or.inl ⟨fun _ => mem_of_clearExpired, Nat.le_of_eq hn⟩⟩

theorem lowers_checkLast (h : advance s .checkLast = some r)
    (hn : n' + Pc.checkLast.willStore.toNat = n + r.pc.willStore.toNat) :
    Lowers s n n' .checkLast r := by
  obtain rfl := Option.some.inj h
  cases hr : s.cooldown.shouldReset s.now with
  | true =>
    simp only [hr, if_true] at hn ⊢
    exact ⟨Nat.lt_succ_self 1, Or.inl ⟨fun d hd => hd, Nat.le_of_eq hn⟩⟩
  | false =>
    simp only [hr, Bool.false_eq_true, if_false] at hn ⊢
    exact ⟨Nat.succ_pos 1, Or.inl ⟨fun d hd => hd, Nat.le_of_eq hn⟩⟩

end Steps

/-- **The step of a task** lowers its measure. -/
theorem Moves.lowers (h : Moves s t a r) (hidle : s.pc t ≠ .idle) {n n' : Nat}
    (hn : n' + (s.pc t).willStore.toNat = n + r.pc.willStore.toNat) :
    Lowers s n n' (s.pc t) r := by
  cases h with
  | call c h => exact absurd h hidle
  | draw jitter h hd =>
    rw [h] at hn ⊢
    obtain rfl : n' = n := Nat.add_right_cancel hn
    exact ⟨Nat.lt_succ_self 3, Or.inl ⟨fun d hd => hd, Nat.le_refl _⟩⟩
  | go h =>
    cases hp : s.pc t with
    | idle => exact absurd hp hidle
    | stepBackoff => rw [hp] at h; exact absurd h (by simp [advance])
    | wait permit => rw [hp] at h hn; exact lowers_wait h hn
    | sleep permit u => rw [hp] at h hn; exact lowers_sleep h hn
    | acquire => rw [hp] at h hn; exact lowers_acquire h hn
    | checkUntil => rw [hp] at h hn; exact lowers_checkUntil h hn
    | checkLast => rw [hp] at h hn; exact lowers_checkLast h hn
    | storeUntil deadline =>
      -- one store less to come
      rw [hp] at h hn
      obtain rfl := Option.some.inj h
      exact ⟨Nat.lt_succ_self 1, Or.inr (Nat.le_of_eq hn)⟩
    | computeUntil delay =>
      rw [hp] at h hn
      obtain rfl := Option.some.inj h
      obtain rfl : n' = n := Nat.add_right_cancel hn
      exact ⟨Nat.lt_succ_self 2, Or.inl ⟨fun d hd => hd, Nat.le_refl _⟩⟩
    | _ =>
      rw [hp] at h hn
      obtain rfl := Option.some.inj h
      exact ⟨Nat.lt_succ_self _, Or.inl ⟨fun d hd => hd, Nat.le_of_eq hn⟩⟩

/-- **Without new calls** a step of a task lowers the measure, and the clock does not raise it. -/
theorem allStepsLeft_step (hwithin : Crew.Within U .idle s.pc) (h : Step s a s')
    (ha : a.begins = false) :
    Crew.Within U .idle s'.pc ∧ allStepsLeft U s' + a.inCall.toNat ≤ allStepsLeft U s := by
  rcases step_cases h with ⟨d, rfl, rfl⟩ | ⟨t, r, hm, rfl⟩
  · exact ⟨hwithin, Crew.total_le fun t _ =>
      eases (Nat.le_add_right _ _) (Or.inl ⟨fun d hd => hd, Nat.le_refl _⟩) _⟩
  · have hidle : s.pc t ≠ .idle := by
      cases hm with
      | call c hp => exact absurd ha (by simp [Act.begins])
      | draw jitter hp hd => rw [hp]; simp
      | go hr => intro hp; rw [hp] at hr; exact absurd hr (by simp [advance])
    have ht : t ∈ U := by_contra fun hU => hidle (hwithin t hU)
    have hwithin' := hwithin.update t r.pc
    rw [Finset.insert_eq_of_mem ht, ← s.move_pc_eq] at hwithin'
    have hn := Crew.total_update (w := fun p => p.willStore.toNat) (f := s.pc) ht r.pc
    rw [← s.move_pc_eq] at hn
    obtain ⟨hlt, hease⟩ := hm.lowers hidle hn
    have hlowered : allStepsLeft U (s.move t r) < allStepsLeft U s := by
      show Crew.total U (stepsLeft s.now r.cooldown.rateLimitUntil (storing U (s.move t r)))
        (s.move t r).pc < _
      rw [State.move_pc_eq]
      exact Crew.total_update_lt ht hlt fun u _ _ => eases (Nat.le_refl s.now) hease (s.pc u)
    have hone := Bool.toNat_le a.inCall
    exact ⟨hwithin', by omega⟩

/-! ## Until every call is over -/

/-- A task in a call can go on at some time, unless it waits for a permit and none is free. -/
theorem exists_move (hidle : s.pc t ≠ .idle) (hfree : s.pc t = .acquire → 0 < s.permits) :
    ∃ d a s', Act.inCall a = true ∧ Step { s with now := s.now + d } a s' := by
  have hgo : ∀ d r, advance { s with now := s.now + d } (s.pc t) = some r →
      ∃ d a s', Act.inCall a = true ∧ Step { s with now := s.now + d } a s' := fun d r hr =>
    ⟨d, .go t, _, rfl, Option.map_eq_some_iff.mpr ⟨r, hr, rfl⟩⟩
  cases hp : s.pc t with
  | idle => exact absurd hp hidle
  | stepBackoff =>
    exact ⟨0, .draw t 0, _, rfl, if_pos ⟨hp, WorkerBackoff.draws_zero _⟩⟩
  | sleep permit deadline =>
    rw [hp] at hgo
    exact hgo (deadline - s.now) _ (if_pos (by show deadline ≤ s.now + (deadline - s.now); omega))
  | acquire =>
    rw [hp] at hgo
    exact hgo 0 _ (if_pos (hfree hp))
  | _ =>
    rw [hp] at hgo
    exact hgo 0 _ rfl

theorem ends_of_within (hwithin : Crew.Within U .idle s.pc) {tr : List (State × Act)}
    (h : Run (Guarded Step fun _ a => a.begins = false) s tr s') :
    tr.countP (fun x => x.2.inCall) ≤ allStepsLeft U s := by
  have hlast := h.invariant_trace
    (I := fun tr u => Crew.Within U .idle u.pc ∧
      tr.countP (fun x => x.2.inCall) + allStepsLeft U u ≤ allStepsLeft U s)
    ⟨hwithin, by simp⟩ fun tr u a v _ ⟨hw, hle⟩ hs => by
      obtain ⟨hw', hlowers⟩ := allStepsLeft_step hw hs.1 hs.2
      refine ⟨hw', ?_⟩
      rw [List.countP_append, List.countP_singleton]
      cases ha : a.inCall with
      | true => rw [ha, Bool.toNat_true] at hlowers; simp only [if_true]; omega
      | false => simp only [Bool.false_eq_true, if_false]; omega
  omega

/-- Without permits the first request waits for ever. -/
theorem waits_without_permits : ∃ tr s, Run Step (init 0 0) tr s ∧ ¬Drains s := by
  have hcall : Step (init 0 0) (.call 0 .sendRpcRequest)
      ((init 0 0).move 0 ⟨0, Cooldown.new, .wait false⟩) := rfl
  have hgo : Step ((init 0 0).move 0 ⟨0, Cooldown.new, .wait false⟩) (.go 0)
      (((init 0 0).move 0 ⟨0, Cooldown.new, .wait false⟩).move 0 ⟨0, Cooldown.new, .acquire⟩) := rfl
  refine ⟨_, _, (Run.single hcall).tail hgo, fun h => ?_⟩
  obtain ⟨d, a, s', ha, hstep⟩ := h.goesOn ⟨0, by simp⟩
  rcases step_cases hstep with ⟨e, rfl, -⟩ | ⟨t, r, hm, -⟩
  · exact absurd ha (by simp [Act.inCall])
  · rcases eq_or_ne t 0 with rfl | ht
    · cases hm with
      | call c hp => exact absurd ha (by simp [Act.inCall])
      | draw jitter hp hd => exact absurd hp (by simp)
      | go hr => exact absurd hr (by simp [advance, State.move, init])
    · have hidle : (((init 0 0).move 0 ⟨0, Cooldown.new, .wait false⟩).move 0
          ⟨0, Cooldown.new, .acquire⟩).pc t = .idle := by
        rw [State.move_pc_of_ne _ _ ht, State.move_pc_of_ne _ _ ht]
        rfl
      cases hm with
      | call c hp => exact absurd ha (by simp [Act.inCall])
      | draw jitter hp hd => exact absurd (hidle.symm.trans hp) (by simp)
      | go hr =>
        dsimp only at hr
        rw [hidle] at hr
        exact absurd hr (by simp [advance])

/-- **No call waits for ever**, neither on the others nor because of them, if and only if there is a
permit. -/
theorem drains_iff {maxConcurrent : Nat} :
    (∀ now tr s, Run Step (init maxConcurrent now) tr s → Drains s) ↔ 1 ≤ maxConcurrent := by
  constructor
  · intro h
    by_contra hzero
    obtain rfl : maxConcurrent = 0 := by omega
    obtain ⟨tr, s, hr, hstuck⟩ := waits_without_permits
    exact hstuck (h 0 tr s hr)
  · intro h now tr s hr
    obtain ⟨U, hc⟩ := counts_run hr
    refine ⟨⟨allStepsLeft U s, fun tr s' hr' => ends_of_within hc.within hr'⟩, ?_⟩
    rintro ⟨t, ht⟩
    by_cases hfree : s.pc t = .acquire → 0 < s.permits
    · exact exists_move ht hfree
    · -- then someone has a permit, who does not wait for one
      have hpermits := hc.permits
      have hpos : 0 < Crew.total U (fun p => p.holdsPermit.toNat) s.pc := by
        have := Classical.not_imp.mp hfree
        omega
      obtain ⟨u, -, hu⟩ := Crew.exists_of_total_pos hpos
      refine exists_move (t := u) (fun hp => ?_) (fun hp => ?_) <;>
      · rw [hp] at hu
        exact absurd hu (by simp [Pc.holdsPermit])

end OnChainEventIndexer.RateLimit
