-- SUMMARY: Lists joined by a separator element: their length, their elements, and their image under a substitution.
import Mathlib.Algebra.GroupWithZero.Nat
import Mathlib.Algebra.Order.BigOperators.Group.List
import Mathlib.Data.List.TakeWhile

/-!
# Separated lists

`[x].intercalate ls` is the lists `ls` with `x` between them. Whether it can be
taken apart again is a matter of how long it is and of how often `x` occurs in it.
-/

namespace Separated

variable {α β : Type*} (x : α) (ls : List (List α))

/-- Lists that are each followed by `x`, without the last `x`. -/
theorem dropLast_flatMap :
    (ls.flatMap fun l => l ++ [x]).dropLast = [x].intercalate ls := by
  induction ls with
  | nil => rfl
  | cons l ls ih =>
    cases ls with
    | nil => simp
    | cons m ls =>
      have hne : ((m :: ls).flatMap fun l => l ++ [x]) ≠ [] := by simp
      rw [List.flatMap_cons, List.dropLast_append_of_ne_nil hne, ih, List.intercalate_cons_cons]

theorem length_intercalate {ls : List (List α)} (h : ls ≠ []) :
    ([x].intercalate ls).length + 1 = (ls.map List.length).sum + ls.length := by
  induction ls with
  | nil => exact absurd rfl h
  | cons l ls ih =>
    cases ls with
    | nil => simp
    | cons m ls =>
      have hrest := ih (List.cons_ne_nil m ls)
      simp only [List.intercalate_cons_cons, List.length_append, List.length_nil,
        List.map_cons, List.sum_cons, List.length_cons] at hrest ⊢
      omega

theorem count_intercalate [DecidableEq α] {ls : List (List α)} (h : ls ≠ [])
    (hx : ∀ l ∈ ls, x ∉ l) : ([x].intercalate ls).count x + 1 = ls.length := by
  induction ls with
  | nil => exact absurd rfl h
  | cons l ls ih =>
    have hl : l.count x = 0 := List.count_eq_zero.mpr (hx l List.mem_cons_self)
    cases ls with
    | nil => simp [hl]
    | cons m ls =>
      have hrest := ih (List.cons_ne_nil m ls) fun l hl => hx l (List.mem_cons_of_mem _ hl)
      simp only [List.intercalate_cons_cons, List.count_append, List.count_singleton_self, hl,
        List.length_cons] at hrest ⊢
      omega

theorem mem_intercalate {y : α} (h : y ≠ x) :
    y ∈ [x].intercalate ls ↔ ∃ l ∈ ls, y ∈ l := by
  induction ls with
  | nil => simp
  | cons l ls ih =>
    cases ls with
    | nil => simp
    | cons m ls => simp [List.intercalate_cons_cons, h, ih]

theorem takeWhile_intercalate [DecidableEq α] {y : α} {ls : List (List α)} (h : y ≠ x)
    (hy : ∀ l ∈ ls, y ∉ l) :
    ([x].intercalate ls).takeWhile (· ≠ y) = [x].intercalate ls := by
  apply List.takeWhile_eq_self_iff.mpr
  intro z hz
  simp only [decide_eq_true_eq]
  rintro rfl
  obtain ⟨l, hl, hz⟩ := (mem_intercalate x ls h).mp hz
  exact hy l hl hz

/-- A substitution that keeps the separator a single element. -/
theorem flatMap_intercalate {y : β} {f : α → List β} (h : f x = [y]) :
    ([x].intercalate ls).flatMap f = [y].intercalate (ls.map fun l => l.flatMap f) := by
  induction ls with
  | nil => rfl
  | cons l ls ih =>
    cases ls with
    | nil => simp
    | cons m ls =>
      simp only [List.intercalate_cons_cons, List.flatMap_append, ih, List.map_cons,
        List.flatMap_singleton, h]

end Separated
