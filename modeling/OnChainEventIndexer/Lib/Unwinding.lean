import OnChainEventIndexer.Lib.Run
import Mathlib.Data.List.Induction
import Mathlib.Data.Set.Basic

/-!
# Noninterference by unwinding

Many parties call one component. A step `step s (a, b) t` is a call `a` that is answered `b`. Some
calls are `mine`, and `view s` is what of a state concerns the party that makes them; `Inv` is what
is assumed of the states. `seen s calls` are the possible records of the calls, made one after the
other: for each call of the party, the answer and the view after it.

* `Separated`: the conditions on one step. The calls of others leave the view as it is; what a call
  of the party may answer and do to the view is determined by the view.
* **`Separated.seen_congr`**: then the view determines what is seen, and the calls of others do not
  matter.
-/

namespace Unwinding

open Lts

variable {σ α β ω : Type}

/-- The possible answers to a call, each with the view it leads to. -/
def outcomes (step : σ → α × β → σ → Prop) (view : σ → ω) (s : σ) (a : α) : Set (β × ω) :=
  {p | ∃ t, step s (a, p.1) t ∧ view t = p.2}

/-- The calls of a trace. -/
def calls (tr : List (σ × α × β)) : List α := tr.map (·.2.1)

/-- What the party sees of a trace that ends in `t`. -/
def record (mine : α → Bool) (view : σ → ω) (tr : List (σ × α × β)) (t : σ) : List (β × ω) :=
  (moves tr t).filterMap fun m => if mine m.1.2.1 then some (m.1.2.2, view m.2) else none

/-- What the party may see of these calls. -/
def seen (step : σ → α × β → σ → Prop) (mine : α → Bool) (view : σ → ω) (s : σ) (as : List α) :
    Set (List (β × ω)) :=
  {l | ∃ tr t, Run step s tr t ∧ calls tr = as ∧ record mine view tr t = l}

/-- The conditions on one step. -/
structure Separated (step : σ → α × β → σ → Prop) (Inv : σ → Prop) (mine : α → Bool)
    (view : σ → ω) : Prop where
  inv : ∀ s x t, Inv s → step s x t → Inv t
  /-- A call is answered. -/
  total : ∀ s a, ∃ b t, step s (a, b) t
  others : ∀ s a b t, mine a = false → step s (a, b) t → view t = view s
  determined : ∀ s s' a, Inv s → Inv s' → mine a = true → view s = view s' →
    outcomes step view s a ⊆ outcomes step view s' a

variable {step : σ → α × β → σ → Prop} {Inv : σ → Prop} {mine : α → Bool} {view : σ → ω}

theorem calls_snoc (tr : List (σ × α × β)) (t : σ) (a : α) (b : β) :
    calls (tr ++ [(t, a, b)]) = calls tr ++ [a] := by
  unfold calls
  rw [List.map_append, List.map_singleton]

theorem record_snoc_mine (tr : List (σ × α × β)) (t u : σ) {a : α} (b : β) (ha : mine a = true) :
    record mine view (tr ++ [(t, a, b)]) u = record mine view tr t ++ [(b, view u)] := by
  unfold record
  rw [moves_snoc, List.filterMap_append, List.filterMap_cons, List.filterMap_nil, if_pos ha]

theorem record_snoc_other (tr : List (σ × α × β)) (t u : σ) {a : α} (b : β) (ha : mine a = false) :
    record mine view (tr ++ [(t, a, b)]) u = record mine view tr t := by
  unfold record
  rw [moves_snoc, List.filterMap_append, List.filterMap_cons, List.filterMap_nil,
    if_neg (by simp [ha]), List.append_nil]

/-- A trace whose last call is `a`. -/
theorem of_calls_snoc {s t : σ} {tr : List (σ × α × β)} {as : List α} {a : α}
    (h : Run step s tr t) (hc : calls tr = as ++ [a]) :
    ∃ tr' u b, tr = tr' ++ [(u, a, b)] ∧ calls tr' = as ∧ Run step s tr' u ∧ step u (a, b) t := by
  cases h with
  | refl => exact absurd hc (by simp [calls])
  | @tail tr' u _ x hr hs =>
    obtain ⟨a', b⟩ := x
    rw [calls_snoc] at hc
    obtain ⟨hcalls, ha⟩ := List.append_inj' hc rfl
    obtain rfl := List.singleton_inj.mp ha
    exact ⟨tr', u, b, rfl, hcalls, hr, hs⟩

namespace Separated

/-- **The calls of others left out**: a run with the party's calls only, and the same record. -/
theorem purge (h : Separated step Inv mine view) {s s' t : σ} {tr : List (σ × α × β)}
    (hs : Inv s) (hs' : Inv s') (hview : view s = view s') (hr : Run step s tr t) :
    ∃ tr' t', Run step s' tr' t' ∧ calls tr' = (calls tr).filter mine ∧
      record mine view tr' t' = record mine view tr t ∧ view t = view t' := by
  induction hr with
  | refl => exact ⟨[], s', Run.refl, rfl, rfl, hview⟩
  | @tail tr t u x hr hstep ih =>
    obtain ⟨a, b⟩ := x
    obtain ⟨tr', t', hr', hcalls, hrec, heq⟩ := ih
    rw [calls_snoc, List.filter_append, ← hcalls]
    cases ha : mine a with
    | true =>
      have hmem : (b, view u) ∈ outcomes step view t' a :=
        h.determined t t' a (hr.invariant h.inv hs) (hr'.invariant h.inv hs') ha heq ⟨u, hstep, rfl⟩
      obtain ⟨u', hstep', hu⟩ := hmem
      refine ⟨tr' ++ [(t', a, b)], u', hr'.tail hstep', ?_, ?_, hu.symm⟩
      · rw [calls_snoc, List.filter_cons_of_pos ha, List.filter_nil]
      · rw [record_snoc_mine _ _ _ _ ha, record_snoc_mine _ _ _ _ ha, hrec, hu]
    | false =>
      refine ⟨tr', t', hr', ?_, ?_, (h.others t a b u ha hstep).trans heq⟩
      · rw [List.filter_cons_of_neg (by simp [ha]), List.filter_nil, List.append_nil]
      · rw [record_snoc_other _ _ _ _ ha, hrec]

/-- **The calls of others put in**, anywhere. -/
theorem interleave (h : Separated step Inv mine view) {s s' : σ} (hs : Inv s) (hs' : Inv s')
    (hview : view s = view s') (as : List α) {t' : σ} {tr' : List (σ × α × β)}
    (hr : Run step s' tr' t') (hcalls : calls tr' = as.filter mine) :
    ∃ tr t, Run step s tr t ∧ calls tr = as ∧ record mine view tr t = record mine view tr' t' ∧
      view t = view t' := by
  induction as using List.reverseRecOn generalizing tr' t' with
  | nil =>
    obtain rfl : tr' = [] := List.map_eq_nil_iff.mp hcalls
    obtain rfl := hr.eq_of_nil rfl
    exact ⟨[], s, Run.refl, rfl, rfl, hview⟩
  | append_singleton as a ih =>
    rw [List.filter_append] at hcalls
    cases ha : mine a with
    | true =>
      rw [List.filter_cons_of_pos ha, List.filter_nil] at hcalls
      obtain ⟨tr₁, u', b, rfl, hcalls, hr₁, hstep'⟩ := of_calls_snoc hr hcalls
      obtain ⟨tr, u, hrun, hc, hrec, heq⟩ := ih hr₁ hcalls
      have hmem : (b, view t') ∈ outcomes step view u a :=
        h.determined u' u a (hr₁.invariant h.inv hs') (hrun.invariant h.inv hs) ha heq.symm
          ⟨t', hstep', rfl⟩
      obtain ⟨t, hstep, ht⟩ := hmem
      refine ⟨tr ++ [(u, a, b)], t, hrun.tail hstep, by rw [calls_snoc, hc], ?_, ht⟩
      rw [record_snoc_mine _ _ _ _ ha, record_snoc_mine _ _ _ _ ha, hrec, ht]
    | false =>
      rw [List.filter_cons_of_neg (by simp [ha]), List.filter_nil, List.append_nil] at hcalls
      obtain ⟨tr, u, hrun, hc, hrec, heq⟩ := ih hr hcalls
      obtain ⟨b, t, hstep⟩ := h.total u a
      refine ⟨tr ++ [(u, a, b)], t, hrun.tail hstep, by rw [calls_snoc, hc], ?_,
        (h.others u a b t ha hstep).trans heq⟩
      rw [record_snoc_other _ _ _ _ ha, hrec]

/-- **Noninterference**: from states with the same view, calls that differ in those of others only
look the same. -/
theorem seen_congr (h : Separated step Inv mine view) {s s' : σ} (hs : Inv s) (hs' : Inv s')
    (hview : view s = view s') {as as' : List α} (has : as.filter mine = as'.filter mine) :
    seen step mine view s as = seen step mine view s' as' := by
  have hsub : ∀ {s s' : σ} {as as' : List α}, Inv s → Inv s' → view s = view s' →
      as.filter mine = as'.filter mine → seen step mine view s as ⊆ seen step mine view s' as' := by
    rintro s s' as as' hs hs' hview has l ⟨tr, t, hr, rfl, rfl⟩
    obtain ⟨tr₁, t₁, hr₁, hcalls, hrec, -⟩ := h.purge hs hs' hview hr
    obtain ⟨tr', t', hr', hc, hrec', -⟩ := h.interleave hs' hs' rfl as' hr₁ (hcalls.trans has)
    exact ⟨tr', t', hr', hc, hrec'.trans hrec⟩
  exact Set.Subset.antisymm (hsub hs hs' hview has) (hsub hs' hs hview.symm has.symm)

/-- In every run. -/
theorem others_moves (h : Separated step Inv mine view) {s t : σ} {tr : List (σ × α × β)}
    (hr : Run step s tr t) : ∀ m ∈ moves tr t, mine m.1.2.1 = false → view m.2 = view m.1.1 := by
  induction hr with
  | refl => exact fun m hm => absurd hm List.not_mem_nil
  | @tail tr t u x _ hstep ih =>
    intro m hm ha
    rw [moves_snoc] at hm
    rcases List.mem_append.mp hm with hm | hm
    · exact ih m hm ha
    · obtain rfl := List.mem_singleton.mp hm
      exact h.others t x.1 x.2 u ha hstep

end Separated

end Unwinding
