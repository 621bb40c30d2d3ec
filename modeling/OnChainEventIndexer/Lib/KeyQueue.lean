import OnChainEventIndexer.Lib.Run
import Mathlib.Data.List.Nodup
import Mathlib.Logic.Function.Basic

/-!
# Queues with one in work per key

Entries wait in the order they arrive. Any number of them may be in work, but of each key only one:
the next to start is the first whose key is not in work.

* `InOrder`: of each key the first starts; which key is next is open.
* `started_append_waiting`: then the entries of a key start in the order of arrival, each once, and
  none is lost.
* `Step.idxOf`: while an entry waits and its key is free, only those before it start.
-/

namespace KeyQueue

open Lts

variable {ι κ : Type} [DecidableEq κ]

/-- The entries that wait, each with its key, and the keys that are busy. -/
structure Queue (ι κ : Type) where
  waiting : List (ι × κ)
  busy : κ → Bool

/-- An entry arrives or starts, or the one at work for a key is finished. -/
inductive Act (ι κ : Type)
  | arrive (x : ι × κ)
  | start (x : ι × κ)
  | finish (k : κ)

/-- An entry starts if its key is not busy and those of the entries before it are. -/
inductive Step : Queue ι κ → Act ι κ → Queue ι κ → Prop
  | arrive {q : Queue ι κ} (x : ι × κ) : Step q (.arrive x) ⟨q.waiting ++ [x], q.busy⟩
  | start {q : Queue ι κ} {before after : List (ι × κ)} {x : ι × κ}
      (hw : q.waiting = before ++ x :: after) (hfree : q.busy x.2 = false)
      (hbusy : ∀ y ∈ before, q.busy y.2 = true) :
      Step q (.start x) ⟨before ++ after, Function.update q.busy x.2 true⟩
  | finish {q : Queue ι κ} {k : κ} (h : q.busy k = true) :
      Step q (.finish k) ⟨q.waiting, Function.update q.busy k false⟩

/-- Of each key the first starts. -/
inductive InOrder : List (ι × κ) → Act ι κ → List (ι × κ) → Prop
  | arrive {waiting : List (ι × κ)} (x : ι × κ) : InOrder waiting (.arrive x) (waiting ++ [x])
  | start {before after : List (ι × κ)} {x : ι × κ} (hfirst : ∀ y ∈ before, y.2 ≠ x.2) :
      InOrder (before ++ x :: after) (.start x) (before ++ after)
  | finish {waiting : List (ι × κ)} {k : κ} : InOrder waiting (.finish k) waiting

/-- The ids of the entries with key `k`. -/
def ofKey (k : κ) (xs : List (ι × κ)) : List ι := (xs.filter fun x => x.2 = k).map Prod.fst

theorem ofKey_append (k : κ) (xs ys : List (ι × κ)) :
    ofKey k (xs ++ ys) = ofKey k xs ++ ofKey k ys := by
  unfold ofKey
  rw [List.filter_append, List.map_append]

theorem ofKey_cons (k : κ) (x : ι × κ) (xs : List (ι × κ)) :
    ofKey k (x :: xs) = ofKey k [x] ++ ofKey k xs := ofKey_append k [x] xs

theorem ofKey_eq_nil {k : κ} {xs : List (ι × κ)} (h : ∀ x ∈ xs, x.2 ≠ k) : ofKey k xs = [] := by
  unfold ofKey
  rw [List.filter_eq_nil_iff.mpr fun x hx => by simpa using h x hx, List.map_nil]

/-- The entry that arrives. -/
def Act.arrived : Act ι κ → Option (ι × κ)
  | .arrive x => some x
  | _ => none

/-- The entry that starts. -/
def Act.started : Act ι κ → Option (ι × κ)
  | .start x => some x
  | _ => none

/-- The act is not a mere `finish`. -/
def Act.visible : Act ι κ → Option (Act ι κ)
  | .finish _ => none
  | a => some a

/-- The entries that arrive, in this order. -/
def arrivals (events : List (Act ι κ)) : List (ι × κ) := events.filterMap Act.arrived

/-- The entries that start, in this order. -/
def starts (events : List (Act ι κ)) : List (ι × κ) := events.filterMap Act.started

/-- What can be seen of a run. -/
def events {σ : Type} (tr : List (σ × Act ι κ)) : List (Act ι κ) := tr.filterMap fun x => x.2.visible

variable {q q' : Queue ι κ} {waiting waiting' : List (ι × κ)} {a : Act ι κ}
  {tr : List (List (ι × κ) × Act ι κ)}

/-! ## In the order of arrival -/

theorem Step.inOrder (h : Step q a q') : InOrder q.waiting a q'.waiting := by
  cases h with
  | arrive x => exact .arrive x
  | start hw hfree hbusy =>
    rw [hw]
    -- whoever waits before has another key
    refine .start fun y hy he => ?_
    have hy' := hbusy y hy
    rw [he, hfree] at hy'
    exact absurd hy' (by simp)
  | finish h => exact .finish

/-- What starts was the first of its key. -/
theorem InOrder.ofKey (h : InOrder waiting a waiting') (k : κ) :
    ofKey k a.started.toList ++ ofKey k waiting' = ofKey k waiting ++ ofKey k a.arrived.toList := by
  cases h with
  | arrive x => exact ofKey_append k waiting [x]
  | @start before after x hfirst =>
    simp only [Act.started, Act.arrived, Option.toList_some, Option.toList_none]
    rw [ofKey_append, ofKey_append, ofKey_cons k x after]
    have hnil : KeyQueue.ofKey k ([] : List (ι × κ)) = [] := rfl
    rw [hnil, List.append_nil]
    by_cases hk : x.2 = k
    · have hbefore : KeyQueue.ofKey k before = [] := ofKey_eq_nil fun y hy he =>
        hfirst y hy (he.trans hk.symm)
      rw [hbefore, List.nil_append, List.nil_append]
    · have hx : KeyQueue.ofKey k [x] = [] := ofKey_eq_nil fun y hy => by
        rw [List.mem_singleton.mp hy]
        exact hk
      rw [hx, List.nil_append, List.nil_append]
  | finish => simp [Act.started, Act.arrived, KeyQueue.ofKey]

/-- **Of each key in the order of arrival**: what has started and what still waits is, in this
order, what was there and what arrived. -/
theorem started_append_waiting (h : Run InOrder waiting tr waiting') (k : κ) :
    ofKey k (starts (events tr)) ++ ofKey k waiting' =
      ofKey k waiting ++ ofKey k (arrivals (events tr)) := by
  induction h with
  | refl => simp [starts, arrivals, events, ofKey]
  | @tail tr r waiting' a _ hs ih =>
    have hstarts : starts (events (tr ++ [(r, a)])) = starts (events tr) ++ a.started.toList := by
      unfold starts events
      rw [List.filterMap_append, List.filterMap_append]
      cases a <;> rfl
    have harrivals : arrivals (events (tr ++ [(r, a)])) =
        arrivals (events tr) ++ a.arrived.toList := by
      unfold arrivals events
      rw [List.filterMap_append, List.filterMap_append]
      cases a <;> rfl
    rw [hstarts, harrivals, ofKey_append, ofKey_append, List.append_assoc, hs.ofKey,
      ← List.append_assoc, ih, List.append_assoc]

/-! ## Who starts before -/

theorem Step.mem_waiting (h : Step q a q') {x : ι × κ} (hx : x ∈ q'.waiting) :
    x ∈ q.waiting ∨ a.arrived = some x := by
  cases h with
  | arrive y =>
    rcases List.mem_append.mp hx with hx | hx
    · exact Or.inl hx
    · exact Or.inr (by rw [List.mem_singleton.mp hx]; rfl)
  | start hw hfree hbusy =>
    left
    rw [hw]
    rcases List.mem_append.mp hx with hx | hx
    · exact List.mem_append_left _ hx
    · exact List.mem_append_right _ (List.mem_cons_of_mem _ hx)
  | finish h => exact Or.inl hx

variable [DecidableEq ι]

/-- **One that goes on waiting** sees no later one start while its key is free. -/
theorem Step.idxOf (h : Step q a q') (hnd : q.waiting.Nodup) {x : ι × κ} (hx : x ∈ q.waiting)
    (hx' : x ∈ q'.waiting) : q'.waiting.idxOf x ≤ q.waiting.idxOf x ∧
      (a.started.isSome = true → q.busy x.2 = false → q'.waiting.idxOf x < q.waiting.idxOf x) := by
  cases h with
  | arrive y =>
    refine ⟨?_, fun h => absurd h (by simp [Act.started])⟩
    have heq : (q.waiting ++ [y]).idxOf x = q.waiting.idxOf x := by
      rw [List.idxOf_append, if_pos hx]
    exact Nat.le_of_eq heq
  | @start before after y hw hfree hbusy =>
    have hne : x ≠ y := by
      rintro rfl
      rw [hw] at hnd
      exact (List.nodup_cons.mp (List.nodup_middle.mp hnd)).1 hx'
    rw [hw]
    show (before ++ after).idxOf x ≤ _ ∧ (_ → _ → (before ++ after).idxOf x < _)
    rw [List.idxOf_append, List.idxOf_append, List.idxOf_cons_ne _ hne.symm]
    by_cases hb : x ∈ before
    · rw [if_pos hb, if_pos hb]
      refine ⟨Nat.le_refl _, fun _ hx => ?_⟩
      rw [hbusy x hb] at hx
      exact absurd hx (by simp)
    · rw [if_neg hb, if_neg hb]
      constructor
      · omega
      · intro _ _
        omega
  | finish h => exact ⟨Nat.le_refl _, fun h => absurd h (by simp [Act.started])⟩

end KeyQueue
