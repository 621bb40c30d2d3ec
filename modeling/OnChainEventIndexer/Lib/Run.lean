import Mathlib.Algebra.Ring.Nat
import Mathlib.Data.List.Basic
import Mathlib.Logic.Relation

/-!
# Runs of a labelled transition system

A system is a relation `step s a t` between states, with a label `a` for what happened.
`Run step s tr t` is a finite run from `s` to `t`; its trace `tr` lists each step as the state it
was taken in and its label, so both the states visited and the labels can be read back.

* `Run.invariant`: what holds initially and is kept by every step holds at the end of every run.
* `Run.relation`: a reflexive and transitive relation that every step respects relates the ends.
* `Run.comes_about`: what holds at the end and not at the start comes about in some step.
* `Run.length_add_measure_le`: a measure that every step lowers bounds the length of a run;
  `Run.countP_add_measure_le`: one that the steps of some kind lower bounds the number of these.
* `Run.balance`: a quantity changes in a run by the sum of what its steps report.
* `Run.of_prefix`: a run stopped before one of its steps is a run; `Run.exists_of_prefix`: so is one
  stopped anywhere.
* `Run.since`: what a step establishes and later steps keep holds of every step of a run, with all
  that came after it.
* `Run.guarded_iff`: a run whose steps all meet a condition `ok` is a run of the system
  restricted to `ok`.
* **`Run.simulates`**: a system whose steps another one follows, with the same observations, has no
  other observations than this one.
* `exec` runs a step *function* over a list of labels; `run_of_exec` reads the run off it.
-/

namespace Lts

variable {σ α : Type}

/-- A finite run from `s` to `t`; every step is recorded with the state it was taken in. -/
inductive Run (step : σ → α → σ → Prop) (s : σ) : List (σ × α) → σ → Prop
  | refl : Run step s [] s
  | tail {tr : List (σ × α)} {t u : σ} {a : α} (hr : Run step s tr t) (hs : step t a u) :
      Run step s (tr ++ [(t, a)]) u

/-- The steps of `step` that meet the condition `ok`. -/
def Guarded (step : σ → α → σ → Prop) (ok : σ → α → Prop) : σ → α → σ → Prop :=
  fun s a t => step s a t ∧ ok s a

/-- The steps of a trace that ends in `t`, each with the state it leads to. -/
def moves (tr : List (σ × α)) (t : σ) : List ((σ × α) × σ) :=
  tr.zip ((tr.map Prod.fst).tail ++ [t])

theorem moves_snoc (tr : List (σ × α)) (t u : σ) (a : α) :
    moves (tr ++ [(t, a)]) u = moves tr t ++ [((t, a), u)] := by
  unfold moves
  cases tr with
  | nil => rfl
  | cons x r =>
    have hnext : ((x :: r ++ [(t, a)]).map Prod.fst).tail ++ [u] =
        (((x :: r).map Prod.fst).tail ++ [t]) ++ [u] := by
      simp
    rw [hnext, List.zip_append (by simp)]
    rfl

theorem mem_of_mem_moves {tr : List (σ × α)} {t : σ} {m : (σ × α) × σ} (h : m ∈ moves tr t) :
    m.1 ∈ tr := (List.of_mem_zip h).1

/-- A step of a longer trace is the last one, or one of the trace before. -/
theorem cons_suffix_concat {l b : List α} {x y : α} :
    y :: b <:+ l ++ [x] ↔ (y = x ∧ b = []) ∨ ∃ b', b = b' ++ [x] ∧ y :: b' <:+ l := by
  rw [List.suffix_concat_iff]
  constructor
  · rintro (h | ⟨r, he, hr⟩)
    · exact absurd h (by simp)
    · cases r with
      | nil =>
        obtain ⟨rfl, rfl⟩ := List.cons.inj he
        exact Or.inl ⟨rfl, rfl⟩
      | cons z r =>
        obtain ⟨rfl, rfl⟩ := List.cons.inj he
        exact Or.inr ⟨r, rfl, hr⟩
  · rintro (⟨rfl, rfl⟩ | ⟨b', rfl, h⟩)
    · exact Or.inr ⟨[], rfl, List.nil_suffix⟩
    · exact Or.inr ⟨y :: b', rfl, h⟩

/-- Two steps of a trace, the first one with all that lies between them. -/
theorem exists_split {l : List α} {i j : Nat} {x y : α} (hy : l[i]? = some y) (hx : l[j]? = some x)
    (hij : i < j) : ∃ pre b, pre ++ [x] <+: l ∧ y :: b <:+ pre := by
  refine ⟨l.take j, (l.take j).drop (i + 1), ?_, ?_⟩
  · have htake : l.take (j + 1) = l.take j ++ [x] := by rw [List.take_add_one, hx, Option.toList_some]
    exact htake ▸ List.take_prefix _ _
  · have hget : (l.take j)[i]? = some y := by rw [List.getElem?_take_of_lt hij, hy]
    obtain ⟨hi, rfl⟩ := List.getElem?_eq_some_iff.mp hget
    rw [List.getElem_cons_drop]
    exact List.drop_suffix _ _

variable {step : σ → α → σ → Prop}

namespace Run

theorem single {s t : σ} {a : α} (h : step s a t) : Run step s [(s, a)] t := Run.tail Run.refl h

theorem eq_of_nil {s t : σ} {tr : List (σ × α)} (h : Run step s tr t) (hnil : tr = []) : t = s := by
  cases h with
  | refl => rfl
  | tail hr hs => exact absurd hnil (by simp)

theorem append {s t u : σ} {tr tr' : List (σ × α)} (h : Run step s tr t) (h' : Run step t tr' u) :
    Run step s (tr ++ tr') u := by
  induction h' with
  | refl => simpa using h
  | tail _ hs ih =>
    rw [← List.append_assoc]
    exact ih.tail hs

theorem head {s t u : σ} {a : α} {tr : List (σ × α)} (h : step s a t) (h' : Run step t tr u) :
    Run step s ((s, a) :: tr) u := (single h).append h'

/-- **The invariant rule.** -/
theorem invariant {I : σ → Prop} (hI : ∀ t a u, I t → step t a u → I u) {s t : σ}
    {tr : List (σ × α)} (h : Run step s tr t) (hs : I s) : I t := by
  induction h with
  | refl => exact hs
  | tail _ hstep ih => exact hI _ _ _ ih hstep

/-- The invariant rule with the trace: `I` may speak of what happened so far. -/
theorem invariant_trace {I : List (σ × α) → σ → Prop} {s : σ} (h0 : I [] s)
    (hI : ∀ tr t a u, Run step s tr t → I tr t → step t a u → I (tr ++ [(t, a)]) u) {t : σ}
    {tr : List (σ × α)} (h : Run step s tr t) : I tr t := by
  induction h with
  | refl => exact h0
  | tail hr hstep ih => exact hI _ _ _ _ hr ih hstep

/-- A reflexive and transitive relation every step respects relates the ends of a run. -/
theorem relation {R : σ → σ → Prop} (hrefl : ∀ s, R s s) (htrans : ∀ {s t u}, R s t → R t u → R s u)
    (hR : ∀ t a u, step t a u → R t u) {s t : σ} {tr : List (σ × α)} (h : Run step s tr t) :
    R s t := by
  induction h with
  | refl => exact hrefl _
  | tail _ hstep ih => exact htrans ih (hR _ _ _ hstep)

/-- ...and each state that is passed through with the end. -/
theorem relation_moves {R : σ → σ → Prop} (hrefl : ∀ s, R s s)
    (htrans : ∀ {s t u}, R s t → R t u → R s u) (hR : ∀ t a u, step t a u → R t u) {s t : σ}
    {tr : List (σ × α)} (h : Run step s tr t) : ∀ m ∈ moves tr t, R m.2 t := by
  induction h with
  | refl => exact fun m hm => absurd hm List.not_mem_nil
  | tail _ hstep ih =>
    intro m hm
    rw [moves_snoc] at hm
    rcases List.mem_append.mp hm with hm | hm
    · exact htrans (ih m hm) (hR _ _ _ hstep)
    · rw [List.mem_singleton.mp hm]
      exact hrefl _

/-- What holds at the end and not at the start comes about in some step. -/
theorem comes_about {P : σ → Prop} {s t : σ} {tr : List (σ × α)} (h : Run step s tr t) (hs : ¬P s)
    (ht : P t) : ∃ m ∈ moves tr t, ¬P m.1.1 ∧ P m.2 := by
  induction h with
  | refl => exact absurd ht hs
  | @tail tr t u a _ hstep ih =>
    by_cases hp : P t
    · obtain ⟨m, hm, hP⟩ := ih hp
      exact ⟨m, moves_snoc tr t u a ▸ List.mem_append_left _ hm, hP⟩
    · refine ⟨((t, a), u), ?_, hp, ht⟩
      rw [moves_snoc]
      exact List.mem_append_right _ (List.mem_singleton_self _)

/-- **Runs are bounded by a measure** that every step from an invariant state lowers. -/
theorem length_add_measure_le {I : σ → Prop} (μ : σ → Nat)
    (hI : ∀ t a u, I t → step t a u → I u) (hμ : ∀ t a u, I t → step t a u → μ u < μ t) {s t : σ}
    {tr : List (σ × α)} (h : Run step s tr t) (hs : I s) : tr.length + μ t ≤ μ s := by
  induction h with
  | refl => simp
  | tail hr hstep ih =>
    have hlt := hμ _ _ _ (hr.invariant hI hs) hstep
    rw [List.length_append, List.length_singleton]
    omega

/-- The same for the steps of one kind, where no other step raises the measure. -/
theorem countP_add_measure_le {I : σ → Prop} {p : σ × α → Bool} (μ : σ → Nat)
    (hI : ∀ t a u, I t → step t a u → I u)
    (hμ : ∀ t a u, I t → step t a u → p (t, a) = true → μ u < μ t)
    (hother : ∀ t a u, I t → step t a u → p (t, a) = false → μ u ≤ μ t) {s t : σ}
    {tr : List (σ × α)} (h : Run step s tr t) (hs : I s) : tr.countP p + μ t ≤ μ s := by
  induction h with
  | refl => simp
  | @tail tr t u a hr hstep ih =>
    have hi := hr.invariant hI hs
    rw [List.countP_append, List.countP_singleton]
    cases hp : p (t, a) with
    | true =>
      have hlt := hμ _ _ _ hi hstep hp
      rw [if_pos rfl]
      omega
    | false =>
      have hle := hother _ _ _ hi hstep hp
      rw [if_neg Bool.false_ne_true]
      omega

/-- **Accounts**: a quantity that each step changes by what it reports. -/
theorem balance {q : σ → Nat} {f : σ × α → Nat} (hq : ∀ t a u, step t a u → q u = q t + f (t, a))
    {s t : σ} {tr : List (σ × α)} (h : Run step s tr t) : q t = q s + (tr.map f).sum := by
  induction h with
  | refl => rfl
  | @tail tr t u a _ hstep ih =>
    rw [hq _ _ _ hstep, ih, List.map_append, List.sum_append, List.map_singleton, List.sum_singleton,
      Nat.add_assoc]

/-- A run of a system is a run of a larger one. -/
theorem imp {step' : σ → α → σ → Prop} (hs : ∀ s a t, step s a t → step' s a t) {s t : σ}
    {tr : List (σ × α)} (h : Run step s tr t) : Run step' s tr t := by
  induction h with
  | refl => exact Run.refl
  | tail _ hstep ih => exact ih.tail (hs _ _ _ hstep)

/-- **Runs whose steps all meet a condition** are the runs of the guarded system. -/
theorem guarded_iff {ok : σ → α → Prop} {s t : σ} {tr : List (σ × α)} :
    Run (Guarded step ok) s tr t ↔ Run step s tr t ∧ ∀ x ∈ tr, ok x.1 x.2 := by
  constructor
  · intro h
    induction h with
    | refl => exact ⟨Run.refl, fun _ hx => absurd hx List.not_mem_nil⟩
    | tail _ hs ih =>
      refine ⟨ih.1.tail hs.1, fun x hx => ?_⟩
      rcases List.mem_append.mp hx with hx | hx
      · exact ih.2 x hx
      · rw [List.mem_singleton.mp hx]
        exact hs.2
  · rintro ⟨h, hok⟩
    induction h with
    | refl => exact Run.refl
    | tail _ hs ih =>
      exact (ih fun x hx => hok x (List.mem_append_left _ hx)).tail
        ⟨hs, hok _ (List.mem_append_right _ (List.mem_singleton_self _))⟩

/-- **Simulation**: where each step from an invariant state is followed by one with the same
observation, or changes nothing and is not observed, each run is followed by one. -/
theorem simulates {τ β γ : Type} {step' : τ → β → τ → Prop} {I : σ → Prop} (f : σ → τ)
    (obs : σ × α → Option γ) (obs' : β → Option γ) (hI : ∀ t a u, I t → step t a u → I u)
    (hsim : ∀ t a u, I t → step t a u → (f u = f t ∧ obs (t, a) = none) ∨
      ∃ b, step' (f t) b (f u) ∧ obs' b = obs (t, a)) {s t : σ} {tr : List (σ × α)}
    (h : Run step s tr t) (hs : I s) :
    ∃ l, Run step' (f s) l (f t) ∧ l.filterMap (fun x => obs' x.2) = tr.filterMap obs := by
  induction h with
  | refl => exact ⟨[], Run.refl, rfl⟩
  | @tail tr t u a hr hstep ih =>
    obtain ⟨l, hl, hobs⟩ := ih
    rcases hsim _ _ _ (hr.invariant hI hs) hstep with ⟨he, hnone⟩ | ⟨b, hb, ho⟩
    · refine ⟨l, he ▸ hl, ?_⟩
      rw [List.filterMap_append, hobs]
      simp [hnone]
    · refine ⟨l ++ [(f t, b)], hl.tail hb, ?_⟩
      rw [List.filterMap_append, List.filterMap_append, hobs]
      simp [List.filterMap_cons, ho]

/-! ### Before and since a step -/

/-- A run stopped before one of its steps. -/
theorem of_prefix {s t : σ} {tr pre : List (σ × α)} {x : σ × α} (h : Run step s tr t)
    (hp : pre ++ [x] <+: tr) : Run step s pre x.1 := by
  induction h with
  | refl => exact absurd (List.prefix_nil.mp hp) (by simp)
  | tail hr hstep ih =>
    rcases List.prefix_concat_iff.mp hp with he | hp
    · obtain ⟨rfl, hx⟩ := List.append_inj' he rfl
      obtain rfl := List.singleton_inj.mp hx
      exact hr
    · exact ih hp

/-- A run stopped anywhere. -/
theorem exists_of_prefix {s t : σ} {tr pre : List (σ × α)} (h : Run step s tr t) (hp : pre <+: tr) :
    ∃ u, Run step s pre u := by
  obtain ⟨rest, rfl⟩ := hp
  cases rest with
  | nil => exact ⟨t, List.append_nil pre ▸ h⟩
  | cons x rest =>
    exact ⟨x.1, h.of_prefix ⟨rest, by rw [List.append_assoc, List.singleton_append]⟩⟩

/-- **The rule for what happened**: what a step establishes and every later step keeps holds of
each step `y` of a run and the steps `b` after it. -/
theorem since {P : σ × α → List (σ × α) → σ → Prop} {s : σ}
    (hnew : ∀ t a u, step t a u → P (t, a) [] u)
    (hkeep : ∀ tr t a u y b, Run step s tr t → y :: b <:+ tr → P y b t → step t a u →
      P y (b ++ [(t, a)]) u) {t : σ} {tr : List (σ × α)} (h : Run step s tr t) :
    ∀ y b, y :: b <:+ tr → P y b t := by
  induction h with
  | refl => exact fun y b hy => absurd (List.suffix_nil.mp hy) (by simp)
  | @tail tr t u a hr hstep ih =>
    intro y b hy
    rcases cons_suffix_concat.mp hy with ⟨rfl, rfl⟩ | ⟨b', rfl, hy'⟩
    · exact hnew _ _ _ hstep
    · exact hkeep _ _ _ _ _ _ hr hy' (ih y b' hy') hstep

end Run

/-! ## Executing a list of labels -/

/-- Run a step function over a list of labels: the trace and the state reached. -/
def exec (f : σ → α → Option σ) : σ → List α → Option (List (σ × α) × σ)
  | s, [] => some ([], s)
  | s, a :: as =>
    match f s a with
    | some t => (exec f t as).map fun p => ((s, a) :: p.1, p.2)
    | none => none

theorem run_of_exec {f : σ → α → Option σ} :
    ∀ {as : List α} {s t : σ} {tr : List (σ × α)}, exec f s as = some (tr, t) →
      Run (fun s a t => f s a = some t) s tr t
  | [], s, t, tr, h => by
    simp only [exec, Option.some.injEq, Prod.mk.injEq] at h
    obtain ⟨rfl, rfl⟩ := h
    exact Run.refl
  | a :: as, s, t, tr, h => by
    simp only [exec] at h
    cases hf : f s a with
    | none => rw [hf] at h; exact absurd h (by simp)
    | some u =>
      rw [hf] at h
      obtain ⟨p, hp, he⟩ := Option.map_eq_some_iff.mp h
      obtain ⟨rfl, rfl⟩ := Prod.mk.inj he
      exact Run.head hf (run_of_exec hp)

theorem labels_of_exec {f : σ → α → Option σ} :
    ∀ {as : List α} {s t : σ} {tr : List (σ × α)}, exec f s as = some (tr, t) →
      tr.map Prod.snd = as
  | [], s, t, tr, h => by
    simp only [exec, Option.some.injEq, Prod.mk.injEq] at h
    exact h.1 ▸ rfl
  | a :: as, s, t, tr, h => by
    simp only [exec] at h
    cases hf : f s a with
    | none => rw [hf] at h; exact absurd h (by simp)
    | some u =>
      rw [hf] at h
      obtain ⟨p, hp, he⟩ := Option.map_eq_some_iff.mp h
      obtain ⟨rfl, rfl⟩ := Prod.mk.inj he
      rw [List.map_cons, labels_of_exec hp]

/-- A run that a list of labels produces and whose trace and end pass a test. -/
theorem exists_run_of_exec (f : σ → α → Option σ) (s : σ) (as : List α)
    (test : List (σ × α) → σ → Bool) (h : (exec f s as).any (fun p => test p.1 p.2) = true) :
    ∃ tr t, Run (fun s a t => f s a = some t) s tr t ∧ tr.map Prod.snd = as ∧ test tr t = true := by
  cases ht : exec f s as with
  | none => rw [ht] at h; exact absurd h (by simp)
  | some p =>
    rw [ht] at h
    exact ⟨p.1, p.2, run_of_exec ht, labels_of_exec ht, h⟩

end Lts
