-- SUMMARY: Threads that share a mutex and one condition variable: where they sleep, what wakes them, and that no wakeup is lost.
import Mathlib.Data.Finset.Card
import Mathlib.Logic.Function.Basic

/-!
# Monitors

The threads of a monitor take turns under one mutex. A thread that finds its condition
false sleeps on the condition variable. Once it was woken, it takes the mutex again and
looks again. A broadcast wakes every thread that sleeps.
-/

namespace Transition

universe u v w

/-- Where a thread is: at a place `r` of its code, or in a wait for `c`. -/
inductive Place (ω : Type u) (ρ : Type v) where
  | at (r : ρ)
  /-- It sleeps. -/
  | asleep (c : ω)
  /-- It was woken, and is about to take the mutex and to look again. -/
  | woken (c : ω)
  deriving DecidableEq, Repr

namespace Place

variable {ω : Type u} {ρ : Type v}

/-- The thread is woken if it sleeps. -/
def wake : Place ω ρ → Place ω ρ
  | .asleep c => .woken c
  | p => p

@[simp] theorem wake_at (r : ρ) : (.at r : Place ω ρ).wake = .at r := rfl

@[simp] theorem wake_asleep (c : ω) : (.asleep c : Place ω ρ).wake = .woken c := rfl

@[simp] theorem wake_woken (c : ω) : (.woken c : Place ω ρ).wake = .woken c := rfl

@[simp] theorem wake_eq_at {p : Place ω ρ} {r : ρ} : p.wake = .at r ↔ p = .at r := by
  cases p <;> simp

@[simp] theorem wake_ne_asleep (p : Place ω ρ) (c : ω) : p.wake ≠ .asleep c := by
  cases p <;> simp

def isAsleep : Place ω ρ → Bool
  | .asleep _ => true
  | _ => false

@[simp] theorem isAsleep_at (r : ρ) : (.at r : Place ω ρ).isAsleep = false := rfl

@[simp] theorem isAsleep_asleep (c : ω) : (.asleep c : Place ω ρ).isAsleep = true := rfl

@[simp] theorem isAsleep_woken (c : ω) : (.woken c : Place ω ρ).isAsleep = false := rfl

@[simp] theorem isAsleep_wake (p : Place ω ρ) : p.wake.isAsleep = false := by
  cases p <;> rfl

/-- Waking a thread does not change what it waits for. -/
def waitsFor : Place ω ρ → Option ω
  | .at _ => none
  | .asleep c | .woken c => some c

@[simp] theorem waitsFor_at (r : ρ) : (.at r : Place ω ρ).waitsFor = none := rfl

@[simp] theorem waitsFor_asleep (c : ω) : (.asleep c : Place ω ρ).waitsFor = some c := rfl

@[simp] theorem waitsFor_woken (c : ω) : (.woken c : Place ω ρ).waitsFor = some c := rfl

@[simp] theorem waitsFor_wake (p : Place ω ρ) : p.wake.waitsFor = p.waitsFor := by
  cases p <;> rfl

end Place

/-! ## Lost wakeups -/

section attentive

variable {ι : Type w} {ω : Type u} {ρ : Type v} {waits waits' : ω → Prop}
  {pc : ι → Place ω ρ}

/-- Whoever sleeps has a reason to: what it waits for has not come yet. -/
def Attentive (waits : ω → Prop) (pc : ι → Place ω ρ) : Prop :=
  ∀ i c, pc i = .asleep c → waits c

/-- After a broadcast no one sleeps. -/
theorem attentive_wake (pc : ι → Place ω ρ) : Attentive waits fun i => (pc i).wake :=
  fun i c h => absurd h ((pc i).wake_ne_asleep c)

theorem Attentive.mono (h : Attentive waits pc)
    (hw : ∀ i c, pc i = .asleep c → waits c → waits' c) : Attentive waits' pc :=
  fun i c hi => hw i c hi (h i c hi)

/-- A thread moves, and does not fall asleep without a reason. -/
theorem Attentive.update [DecidableEq ι] (h : Attentive waits pc) (i : ι) {p : Place ω ρ}
    (hp : ∀ c, p = .asleep c → waits c) : Attentive waits (Function.update pc i p) := by
  intro j c hj
  by_cases hji : j = i
  · subst hji
    exact hp c (by simpa using hj)
  · exact h j c (by simpa [hji] using hj)

end attentive

/-! ## Counting threads -/

section counts

variable {ι : Type w} {α : Type u} {p : α → Prop} {pc : ι → α} {n : ℕ}

/-- Exactly `n` threads are where `p` holds. -/
def Counts (p : α → Prop) (pc : ι → α) (n : ℕ) : Prop :=
  ∃ S : Finset ι, (∀ i, i ∈ S ↔ p (pc i)) ∧ S.card = n

theorem Counts.congr (h : Counts p pc n) {pc' : ι → α} (hp : ∀ i, p (pc' i) ↔ p (pc i)) :
    Counts p pc' n := by
  obtain ⟨S, hS, hn⟩ := h
  exact ⟨S, fun i => (hS i).trans (hp i).symm, hn⟩

theorem counts_zero (h : ∀ i, ¬ p (pc i)) : Counts p pc 0 :=
  ⟨∅, fun i => by simp [h i], rfl⟩

/-- No thread is there if none is counted. -/
theorem Counts.not_of_zero (h : Counts p pc 0) (i : ι) : ¬ p (pc i) := by
  obtain ⟨S, hS, hn⟩ := h
  rw [← hS, Finset.card_eq_zero.mp hn]
  exact Finset.notMem_empty i

theorem Counts.pos (h : Counts p pc n) {i : ι} (hi : p (pc i)) : 0 < n := by
  obtain ⟨S, hS, rfl⟩ := h
  exact Finset.card_pos.mpr ⟨i, (hS i).mpr hi⟩

theorem Counts.exists_of_pos (h : Counts p pc n) (hn : 0 < n) : ∃ i, p (pc i) := by
  obtain ⟨S, hS, rfl⟩ := h
  obtain ⟨i, hi⟩ := Finset.card_pos.mp hn
  exact ⟨i, (hS i).mp hi⟩

/-- No more threads are there than are listed. -/
theorem Counts.le_length (h : Counts p pc n) {l : List ι} (hl : ∀ i, p (pc i) → i ∈ l) :
    n ≤ l.length := by
  classical
  obtain ⟨S, hS, rfl⟩ := h
  calc S.card ≤ l.toFinset.card :=
        Finset.card_le_card fun i hi => List.mem_toFinset.mpr (hl i ((hS i).mp hi))
    _ ≤ l.length := List.toFinset_card_le l

variable [DecidableEq ι]

/-- A thread stays in, or stays out. -/
theorem Counts.stay (h : Counts p pc n) {i : ι} {a : α} (ha : p a ↔ p (pc i)) :
    Counts p (Function.update pc i a) n := by
  refine h.congr fun j => ?_
  by_cases hj : j = i
  · subst hj
    simpa using ha
  · simp [hj]

/-- A thread enters. -/
theorem Counts.enter (h : Counts p pc n) {i : ι} {a : α} (ha : p a) (hi : ¬ p (pc i)) :
    Counts p (Function.update pc i a) (n + 1) := by
  obtain ⟨S, hS, rfl⟩ := h
  refine ⟨insert i S, fun j => ?_, Finset.card_insert_of_notMem (by rwa [hS])⟩
  by_cases hj : j = i
  · subst hj
    simp [ha]
  · simp [hj, hS]

/-- A thread leaves. -/
theorem Counts.leave (h : Counts p pc n) {i : ι} {a : α} (ha : ¬ p a) (hi : p (pc i)) :
    Counts p (Function.update pc i a) (n - 1) := by
  obtain ⟨S, hS, rfl⟩ := h
  refine ⟨S.erase i, fun j => ?_, Finset.card_erase_of_mem ((hS i).mpr hi)⟩
  by_cases hj : j = i
  · subst hj
    simp [ha]
  · simp [hj, hS]

end counts

end Transition
