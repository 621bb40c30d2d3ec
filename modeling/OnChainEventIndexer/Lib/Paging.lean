import Mathlib.Data.List.Basic
import Mathlib.Data.List.Infix
import Mathlib.Data.List.Nodup

/-!
# Reading a list page by page

A list whose entries have distinct keys is read from its head; the cursor of a request is the key
of the last entry delivered. `after key l c` is what is left behind the cursor `c`, `Page` says
that a reply is the next piece of it.

* `after_last`: behind the last entry of a page lies the rest without the page.
* `mem_page_or_after`: no entry is lost between a page and the rest.
* `length_after_lt`: the rest gets shorter, so reading ends.
-/

namespace Paging

variable {α κ : Type} [DecidableEq κ] (key : α → κ)

/-- What is left of the list behind the cursor. -/
def after (l : List α) : Option κ → List α
  | none => l
  | some c => (l.dropWhile fun x => key x ≠ c).tail

/-- `page` is the next piece of `rest`, and a short one is all of it. -/
structure Page (limit : Nat) (rest page : List α) : Prop where
  next : page <+: rest
  short : page.length < limit → page = rest

variable {key} {l page : List α} {c : Option κ}

theorem after_suffix : after key l c <:+ l := by
  cases c with
  | none => exact List.suffix_refl l
  | some c => exact (List.tail_suffix _).trans (List.dropWhile_suffix _)

/-- The cut at a key that occurs once. -/
theorem after_append {xs ys : List α} {x : α} (hx : ∀ y ∈ xs, key y ≠ key x) :
    after key (xs ++ x :: ys) (some (key x)) = ys := by
  have hdrop : (xs ++ x :: ys).dropWhile (fun y => decide (key y ≠ key x)) = x :: ys := by
    rw [List.dropWhile_append_of_pos fun y hy => decide_eq_true (hx y hy)]
    simp
  change ((xs ++ x :: ys).dropWhile fun y => decide (key y ≠ key x)).tail = ys
  rw [hdrop, List.tail_cons]

/-- **Behind the last entry of a page** lies the rest without the page. -/
theorem after_last (hnd : (l.map key).Nodup) (hp : page <+: after key l c) {x : α}
    (hx : page.getLast? = some x) :
    after key l (some (key x)) = (after key l c).drop page.length := by
  obtain ⟨front, hfront⟩ : after key l c <:+ l := after_suffix
  obtain ⟨rest, hrest⟩ := hp
  obtain ⟨init, rfl⟩ := List.getLast?_eq_some_iff.mp hx
  have hl : l = (front ++ init) ++ x :: rest := by
    rw [← hfront, ← hrest]
    simp
  have hne : ∀ y ∈ front ++ init, key y ≠ key x := by
    intro y hy he
    rw [hl, List.map_append, List.map_cons, List.nodup_append] at hnd
    exact hnd.2.2 (key y) (List.mem_map_of_mem hy) (key x) List.mem_cons_self he
  have hleft : after key l (some (key x)) = rest := by
    rw [hl]
    exact after_append hne
  rw [hleft, ← hrest, List.drop_left]

/-- An entry behind the cursor is on the page or behind its end. -/
theorem mem_page_or_after (hnd : (l.map key).Nodup) (hp : page <+: after key l c) {x : α}
    (hx : page.getLast? = some x) {e : α} (he : e ∈ after key l c) :
    e ∈ page ∨ e ∈ after key l (some (key x)) := by
  rw [after_last hnd hp hx]
  obtain ⟨rest, hrest⟩ := hp
  rw [← hrest, List.drop_left]
  rw [← hrest] at he
  exact List.mem_append.mp he

theorem length_after_lt (hnd : (l.map key).Nodup) (hp : page <+: after key l c) {x : α}
    (hx : page.getLast? = some x) :
    (after key l (some (key x))).length + page.length = (after key l c).length ∧
      0 < page.length := by
  have hlen : page.length ≤ (after key l c).length := hp.length_le
  have hpos : 0 < page.length := by
    by_contra h
    rw [List.length_eq_zero_iff.mp (by omega : page.length = 0)] at hx
    exact absurd hx (by simp)
  rw [after_last hnd hp hx, List.length_drop]
  omega

end Paging
