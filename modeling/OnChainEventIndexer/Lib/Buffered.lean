import OnChainEventIndexer.Lib.Run
import Mathlib.Data.List.Forall2

/-!
# A buffer of concurrent tasks

Tasks for a list of inputs, at most `n` of them started and not yet yielded. They finish in any
order; their outcomes are yielded in input order, so a finished task waits for those before it.

* `Step n ok` is one scheduling decision, an outcome of input `a` being any `b` with `ok a b`.
* `outputs_in_order`: at the end of every schedule there is one outcome for each input, in input
  order.
* `exists_schedule`: any such list of outcomes comes from a schedule.
-/

namespace Buffered

open Lts

/-- The inputs not started yet, the started ones with their outcomes as soon as there are any, and
the outcomes yielded so far. -/
structure State (α β : Type) where
  waiting : List α
  started : List (α × Option β)
  yielded : List β

/-- An input is started, an outcome comes in, the first outcome is yielded. -/
inductive Label (β : Type)
  | start
  | finish (i : Nat) (b : β)
  | yield

variable {α β : Type}

/-- The steps, with at most `n` inputs in progress. -/
def step (n : Nat) (s : State α β) : Label β → Option (State α β)
  | .start =>
    match s.waiting with
    | [] => none
    | a :: rest =>
      if s.started.length < n then
        some { s with waiting := rest, started := s.started ++ [(a, none)] }
      else none
  | .finish i b =>
    match s.started[i]? with
    | some (a, none) => some { s with started := s.started.set i (a, some b) }
    | _ => none
  | .yield =>
    match s.started with
    | (_, some b) :: rest => some { s with started := rest, yielded := s.yielded ++ [b] }
    | _ => none

/-- The outcome of a task is one of those its input allows. -/
def Allowed (ok : α → β → Prop) (s : State α β) : Label β → Prop
  | .finish i b => ∀ p ∈ s.started[i]?, ok p.1 b
  | _ => True

/-- One scheduling decision. -/
def Step (n : Nat) (ok : α → β → Prop) : State α β → Label β → State α β → Prop :=
  Guarded (fun s a s' => step n s a = some s') (Allowed ok)

/-- Nothing is started. -/
def init (as : List α) : State α β := ⟨as, [], []⟩

/-- All inputs are started and all outcomes yielded. -/
def State.Finished (s : State α β) : Prop := s.waiting = [] ∧ s.started = []

/-- The inputs are those yielded, those started and those waiting, in this order. -/
structure Inv (ok : α → β → Prop) (as : List α) (s : State α β) : Prop where
  split : ∃ done, as = done ++ s.started.map Prod.fst ++ s.waiting ∧
    List.Forall₂ ok done s.yielded
  outcomes : ∀ p ∈ s.started, ∀ b ∈ p.2, ok p.1 b

variable {n : Nat} {ok : α → β → Prop} {as : List α}

theorem inv_step {s s' : State α β} {a : Label β} (hi : Inv ok as s) (h : Step n ok s a s') :
    Inv ok as s' := by
  obtain ⟨⟨done, has, hdone⟩, houtcomes⟩ := hi
  obtain ⟨h, hallowed⟩ := h
  cases a with
  | start =>
    simp only [step] at h
    split at h
    · exact absurd h (by simp)
    · rename_i a rest hw
      split at h
      · obtain rfl := Option.some.inj h
        refine ⟨⟨done, ?_, hdone⟩, fun p hp b hb => ?_⟩
        · rw [has, hw]
          simp
        · rcases List.mem_append.mp hp with hp | hp
          · exact houtcomes p hp b hb
          · rw [List.mem_singleton.mp hp] at hb
            exact absurd hb (by simp)
      · exact absurd h (by simp)
  | finish i b =>
    simp only [step] at h
    split at h
    · rename_i a hi
      obtain rfl := Option.some.inj h
      refine ⟨⟨done, ?_, hdone⟩, fun p hp b' hb' => ?_⟩
      · -- the inputs started stay where they are
        have hfst : (s.started.set i (a, some b)).map Prod.fst = s.started.map Prod.fst := by
          obtain ⟨hlt, hget⟩ := List.getElem?_eq_some_iff.mp hi
          have hlt' : i < (s.started.map Prod.fst).length := by simpa using hlt
          have ha : (s.started.map Prod.fst)[i] = a := by simp [hget]
          rw [List.map_set]
          exact ha ▸ List.set_getElem_self hlt'
        rw [has]
        simp only [hfst]
      · rcases List.mem_or_eq_of_mem_set hp with hp | rfl
        · exact houtcomes p hp b' hb'
        · obtain rfl := Option.some.inj hb'
          exact hallowed (a, none) hi
    · exact absurd h (by simp)
  | yield =>
    simp only [step] at h
    split at h
    · rename_i a b rest hs
      obtain rfl := Option.some.inj h
      rw [hs] at has houtcomes
      refine ⟨⟨done ++ [a], ?_, ?_⟩, fun p hp => houtcomes p (List.mem_cons_of_mem _ hp)⟩
      · rw [has]
        simp
      · exact List.rel_append hdone
          (List.Forall₂.cons (houtcomes (a, some b) List.mem_cons_self b rfl) List.Forall₂.nil)
    · exact absurd h (by simp)

/-- **Outcomes come in input order**, whatever the schedule. -/
theorem outputs_in_order {tr : List (State α β × Label β)} {t : State α β}
    (h : Run (Step n ok) (init as) tr t) (hf : t.Finished) : List.Forall₂ ok as t.yielded := by
  have hinit : Inv ok as (init as : State α β) :=
    ⟨⟨[], rfl, List.Forall₂.nil⟩, fun p hp => absurd hp List.not_mem_nil⟩
  obtain ⟨⟨done, has, hdone⟩, -⟩ := h.invariant (fun _ _ _ hi hs => inv_step hi hs) hinit
  rw [hf.1, hf.2, List.map_nil, List.append_nil, List.append_nil] at has
  exact has ▸ hdone

/-- **Every list of outcomes has a schedule**: one task after the other. -/
theorem exists_schedule (hn : 0 < n) {bs : List β} (h : List.Forall₂ ok as bs) :
    ∃ tr t, Run (Step n ok) (init as) tr t ∧ t.Finished ∧ t.yielded = bs := by
  suffices hfrom : ∀ ys : List β, ∃ tr t, Run (Step n ok) ⟨as, [], ys⟩ tr t ∧ t.Finished ∧
      t.yielded = ys ++ bs from hfrom []
  induction h with
  | nil => exact fun ys => ⟨[], _, Run.refl, ⟨rfl, rfl⟩, (List.append_nil ys).symm⟩
  | @cons a b as bs hab _ ih =>
    intro ys
    obtain ⟨tr, t, hr, hf, hy⟩ := ih (ys ++ [b])
    have hstart : Step n ok ⟨a :: as, [], ys⟩ .start ⟨as, [(a, none)], ys⟩ :=
      ⟨by simp [step, hn], trivial⟩
    have hfinish : Step n ok ⟨as, [(a, none)], ys⟩ (.finish 0 b) ⟨as, [(a, some b)], ys⟩ :=
      ⟨rfl, fun p hp => Option.some.inj hp ▸ hab⟩
    have hyield : Step n ok ⟨as, [(a, some b)], ys⟩ .yield ⟨as, [], ys ++ [b]⟩ := ⟨rfl, trivial⟩
    refine ⟨_, t, Run.head hstart (Run.head hfinish (Run.head hyield hr)), hf, ?_⟩
    rw [hy, List.append_assoc, List.singleton_append]

end Buffered
