-- SUMMARY: Machines with labelled partial steps: executions, guarded reachability, and the induction rules for invariants.
import Mathlib.Logic.Basic
import Mathlib.Logic.Relation

/-!
# Machines

A machine has states, labels, and a partial step function. A guard restricts
the labels that a run may take in a state, which is how a result about only
some of the runs is stated. `Machine.Under` is reachability along guarded
steps, and `Machine.Reachable` is reachability along any steps.
-/

namespace Transition

universe u v

/-- Where a machine may start, and what a label makes of a state. A label that
    is not enabled in a state has no successor. -/
structure Machine (σ : Type u) (ℓ : Type v) where
  init : σ → Prop
  step : σ → ℓ → Option σ

namespace Machine

variable {σ : Type u} {ℓ : Type v} (M : Machine σ ℓ)

/-- Which labels a run may take in which states. -/
abbrev Guard (_ : Machine σ ℓ) := σ → ℓ → Prop

/-- Take the labels in order. -/
def exec : σ → List ℓ → Option σ
  | s, [] => some s
  | s, l :: ls => (M.step s l).bind fun s' => exec s' ls

@[simp] theorem exec_nil (s : σ) : M.exec s [] = some s := rfl

theorem exec_append (s : σ) (ls ls' : List ℓ) :
    M.exec s (ls ++ ls') = (M.exec s ls).bind fun t => M.exec t ls' := by
  induction ls generalizing s with
  | nil => rfl
  | cons l ls ih =>
    simp only [List.cons_append, exec, Option.bind_assoc]
    exact congrArg _ (funext ih)

/-- A predicate that every step keeps holds at the end of an execution. -/
theorem exec_invariant {I : σ → Prop} {s t : σ} {ls : List ℓ}
    (hstep : ∀ s s' l, l ∈ ls → I s → M.step s l = some s' → I s') (hs : I s)
    (he : M.exec s ls = some t) : I t := by
  induction ls generalizing s with
  | nil => exact Option.some.inj he ▸ hs
  | cons l ls ih =>
    obtain ⟨s', hl, hrest⟩ := Option.bind_eq_some_iff.mp he
    exact ih (fun s s' l hl => hstep s s' l (List.mem_cons_of_mem _ hl))
      (hstep s s' l List.mem_cons_self hs hl) hrest

/-- The states reached by runs whose every step meets the guard `G`. -/
inductive Under (G : M.Guard) : σ → Prop where
  | init {s : σ} : M.init s → Under G s
  | step {s s' : σ} {l : ℓ} : Under G s → G s l → M.step s l = some s' → Under G s'

/-- The states reached by any run. -/
abbrev Reachable : σ → Prop := M.Under fun _ _ => True

variable {M}

/-- A predicate that holds at the start and that every guarded step keeps holds
    of every state reached under the guard. -/
theorem Under.invariant {G : M.Guard} {I : σ → Prop} {s : σ} (h : M.Under G s)
    (hinit : ∀ s, M.init s → I s)
    (hstep : ∀ s s' l, I s → G s l → M.step s l = some s' → I s') : I s := by
  induction h with
  | init hs => exact hinit _ hs
  | step _ hg hs ih => exact hstep _ _ _ ih hg hs

/-- As `Under.invariant`, but the step may also use a predicate `J` that is
    already known of every state reached under the guard. -/
theorem Under.invariant_of {G : M.Guard} {I J : σ → Prop} {s : σ} (h : M.Under G s)
    (hJ : ∀ s, M.Under G s → J s) (hinit : ∀ s, M.init s → I s)
    (hstep : ∀ s s' l, J s → I s → G s l → M.step s l = some s' → I s') : I s := by
  induction h with
  | init hs => exact hinit _ hs
  | step hu hg hs ih => exact hstep _ _ _ (hJ _ hu) ih hg hs

theorem Under.mono {G G' : M.Guard} (hG : ∀ s l, G s l → G' s l) {s : σ}
    (h : M.Under G s) : M.Under G' s := by
  induction h with
  | init hs => exact .init hs
  | step _ hg hs ih => exact ih.step (hG _ _ hg) hs

theorem Under.reachable {G : M.Guard} {s : σ} (h : M.Under G s) : M.Reachable s :=
  h.mono fun _ _ _ => trivial

/-- Every label of `ls` meets the guard where it is taken. -/
def Meets (G : M.Guard) : σ → List ℓ → Prop
  | _, [] => True
  | s, l :: ls => G s l ∧ ∀ s', M.step s l = some s' → Meets G s' ls

theorem Meets.cons {G : M.Guard} {s s' : σ} {l : ℓ} {ls : List ℓ} (hg : G s l)
    (hs : M.step s l = some s') (h : Meets G s' ls) : Meets G s (l :: ls) :=
  ⟨hg, fun _ ht => Option.some.inj (hs.symm.trans ht) ▸ h⟩

/-- A guard that only looks at the labels. -/
theorem Meets.of_forall {G : M.Guard} {ls : List ℓ} (h : ∀ l ∈ ls, ∀ s, G s l) (s : σ) :
    Meets G s ls := by
  induction ls generalizing s with
  | nil => trivial
  | cons l ls ih =>
    exact ⟨h l List.mem_cons_self s, fun s' _ => ih (fun l hl => h l (List.mem_cons_of_mem _ hl)) s'⟩

theorem Under.exec {G : M.Guard} {s t : σ} (h : M.Under G s) (ls : List ℓ)
    (hm : Meets G s ls) (he : M.exec s ls = some t) : M.Under G t := by
  induction ls generalizing s with
  | nil =>
    simp only [exec_nil, Option.some.injEq] at he
    exact he ▸ h
  | cons l ls ih =>
    simp only [Machine.exec, Option.bind_eq_some_iff] at he
    obtain ⟨s', hstep, hrest⟩ := he
    exact ih (h.step hm.1 hstep) (hm.2 s' hstep) hrest

theorem Reachable.exec {s t : σ} (h : M.Reachable s) (ls : List ℓ)
    (he : M.exec s ls = some t) : M.Reachable t := by
  induction ls generalizing s with
  | nil =>
    simp only [exec_nil, Option.some.injEq] at he
    exact he ▸ h
  | cons l ls ih =>
    simp only [Machine.exec, Option.bind_eq_some_iff] at he
    obtain ⟨s', hstep, hrest⟩ := he
    exact ih (h.step trivial hstep) hrest

/-- A run under the guard comes to a state in which `P` holds. -/
def May (M : Machine σ ℓ) (G : M.Guard) (P : σ → Prop) (s : σ) : Prop :=
  ∃ ls t, Meets G s ls ∧ M.exec s ls = some t ∧ P t

theorem May.now {G : M.Guard} {P : σ → Prop} {s : σ} (h : P s) : M.May G P s :=
  ⟨[], s, trivial, rfl, h⟩

theorem May.step {G : M.Guard} {P : σ → Prop} {s s' : σ} {l : ℓ} (hg : G s l)
    (hs : M.step s l = some s') (h : M.May G P s') : M.May G P s := by
  obtain ⟨ls, t, hm, he, hp⟩ := h
  exact ⟨l :: ls, t, .cons hg hs hm, by rw [Machine.exec, hs, Option.bind_some, he], hp⟩

theorem Under.may {G : M.Guard} {P : σ → Prop} {s : σ} (h : M.Under G s) (hm : M.May G P s) :
    ∃ t, M.Under G t ∧ P t := by
  obtain ⟨ls, t, hmeets, he, hp⟩ := hm
  exact ⟨t, h.exec ls hmeets he, hp⟩

/-! ## Runs that another machine follows -/

section calls

variable {τ κ : Type*}

/-- What the steps of a run call, in order, where a step may call nothing. -/
def calls (M : Machine σ ℓ) (call : σ → ℓ → Option κ) : σ → List ℓ → List κ
  | _, [] => []
  | s, l :: ls => (call s l).toList ++ ((M.step s l).map fun s' => calls M call s' ls).getD []

/-- The step from `s` to `s'` is what it calls in `N`, or nothing that `N` can see. -/
def Follows (N : Machine τ κ) (abs : σ → τ) (call : σ → ℓ → Option κ) (s : σ) (l : ℓ) (s' : σ) :
    Prop :=
  match call s l with
  | none => abs s' = abs s
  | some k => N.step (abs s) k = some (abs s')

section follows

variable {N : Machine τ κ} {abs : σ → τ} {call : σ → ℓ → Option κ} {s s' : σ} {l : ℓ}

theorem Follows.of_none (hcall : call s l = none) (h : abs s' = abs s) :
    N.Follows abs call s l s' := by
  unfold Follows
  rw [hcall]
  exact h

theorem Follows.of_some {k : κ} (hcall : call s l = some k)
    (h : N.step (abs s) k = some (abs s')) : N.Follows abs call s l s' := by
  unfold Follows
  rw [hcall]
  exact h

end follows

/-- If each step of `M` is followed by `N`, then so is each run. -/
theorem exec_calls {N : Machine τ κ} (I : σ → Prop) (abs : σ → τ) {call : σ → ℓ → Option κ}
    (hstep : ∀ s s' l, I s → M.step s l = some s' → I s' ∧ N.Follows abs call s l s')
    {s t : σ} {ls : List ℓ} (hs : I s) (he : M.exec s ls = some t) :
    N.exec (abs s) (M.calls call s ls) = some (abs t) := by
  induction ls generalizing s with
  | nil =>
    simp only [exec_nil, Option.some.injEq] at he
    exact he ▸ rfl
  | cons l ls ih =>
    simp only [Machine.exec, Option.bind_eq_some_iff] at he
    obtain ⟨s', hl, hrest⟩ := he
    obtain ⟨hs', hfollows⟩ := hstep s s' l hs hl
    have hcalls := ih hs' hrest
    rw [calls, hl, Option.map_some, Option.getD_some, exec_append]
    unfold Follows at hfollows
    split at hfollows
    · rename_i hnone
      rw [hnone, ← hfollows]
      exact hcalls
    · rename_i k hsome
      have hone : N.exec (abs s) [k] = some (abs s') := by
        rw [Machine.exec, hfollows]
        rfl
      rw [hsome, Option.toList_some, hone]
      exact hcalls

end calls

/-! ## Runs by some of the labels -/

/-- One can go from the one state to the other by labels that meet `G`. -/
def Leads (M : Machine σ ℓ) (G : ℓ → Prop) : σ → σ → Prop :=
  Relation.ReflTransGen fun s t => ∃ l, G l ∧ M.step s l = some t

section leads

variable {G G' : ℓ → Prop} {s t u : σ} {l : ℓ}

theorem Leads.refl (s : σ) : M.Leads G s s := Relation.ReflTransGen.refl

theorem Leads.trans (h : M.Leads G s t) (h' : M.Leads G t u) : M.Leads G s u :=
  Relation.ReflTransGen.trans h h'

theorem Leads.single (hl : G l) (hs : M.step s l = some t) : M.Leads G s t :=
  Relation.ReflTransGen.single ⟨l, hl, hs⟩

theorem Leads.head (hl : G l) (hs : M.step s l = some t) (h : M.Leads G t u) : M.Leads G s u :=
  (Leads.single hl hs).trans h

theorem Leads.mono (h : M.Leads G s t) (hG : ∀ l, G l → G' l) : M.Leads G' s t :=
  Relation.ReflTransGen.mono (fun _ _ ⟨l, hl, hs⟩ => ⟨l, hG l hl, hs⟩) s t h

/-- What every such step keeps holds at the end, if it holds at the start. -/
theorem Leads.invariant {I : σ → Prop} (h : M.Leads G s t) (hs : I s)
    (hstep : ∀ s s' l, I s → G l → M.step s l = some s' → I s') : I t := by
  induction h with
  | refl => exact hs
  | tail _ hlast ih =>
    obtain ⟨l, hl, hs'⟩ := hlast
    exact hstep _ _ l ih hl hs'

theorem Reachable.leads (hs : M.Reachable s) (h : M.Leads G s t) : M.Reachable t :=
  h.invariant hs fun _ _ _ hs _ hstep => hs.step trivial hstep

end leads

/-! ## Runs that come to an end -/

/-- Every run by labels that meet `G` is finite, and can go on until it has come to `P`. -/
structure ComesTo (M : Machine σ ℓ) (G : ℓ → Prop) (P : σ → Prop) (s : σ) : Prop where
  finite : Acc (fun u t => ∃ l, G l ∧ M.step t l = some u) s
  goesOn : ∀ t, M.Leads G s t → P t ∨ ∃ l u, G l ∧ M.step t l = some u

section comesTo

variable {G : ℓ → Prop} {P : σ → Prop} {s : σ}

/-- A run is finite if each of its steps lowers something that cannot be lowered forever. -/
theorem ComesTo.of_measure {β : Type*} {r : β → β → Prop} {I : σ → Prop} (f : σ → β)
    (hs : I s) (hf : Acc r (f s))
    (hstep : ∀ s t l, I s → G l → M.step s l = some t → I t ∧ r (f t) (f s))
    (hgoes : ∀ s, I s → P s ∨ ∃ l t, G l ∧ M.step s l = some t) : M.ComesTo G P s := by
  refine ⟨?_, fun t ht => hgoes t ?_⟩
  · generalize hb : f s = b at hf
    induction hf generalizing s with
    | intro b _ ih =>
      refine ⟨s, ?_⟩
      rintro t ⟨l, hl, ht⟩
      obtain ⟨hinv, hlower⟩ := hstep s t l hs hl ht
      exact ih (f t) (hb ▸ hlower) hinv rfl
  · exact ht.invariant hs fun s t l hs hl ht => (hstep s t l hs hl ht).1

/-- There is such a run. -/
theorem ComesTo.leads (h : M.ComesTo G P s) : ∃ t, M.Leads G s t ∧ P t := by
  obtain ⟨hfinite, hgoes⟩ := h
  induction hfinite with
  | intro s _ ih =>
    obtain hs | ⟨l, t, hl, ht⟩ := hgoes s (.refl s)
    · exact ⟨s, .refl s, hs⟩
    · obtain ⟨u, hu, hp⟩ := ih t ⟨l, hl, ht⟩ fun v hv => hgoes v (.head hl ht hv)
      exact ⟨u, .head hl ht hu, hp⟩

end comesTo

/-! ## Evaluating runs -/

/-- A run from `s` ends in a state that passes the test `p`. -/
theorem Reachable.exec_any {s : σ} (h : M.Reachable s) (ls : List ℓ) {p : σ → Bool}
    (he : (M.exec s ls).any p = true) : ∃ t, M.Reachable t ∧ p t = true := by
  obtain ⟨t, ht, hp⟩ := (Option.any_eq_true _ _).mp he
  exact ⟨t, h.exec ls ht, hp⟩

/-- As `exec`, if every label passes the test `g` in the state in which it is taken. -/
def execIf (M : Machine σ ℓ) (g : σ → ℓ → Bool) : σ → List ℓ → Option σ
  | s, [] => some s
  | s, l :: ls => if g s l then (M.step s l).bind fun s' => execIf M g s' ls else none

/-- As `Reachable.exec_any`, where the test `g` is enough for the guard. -/
theorem Under.execIf_any {G : M.Guard} {g : σ → ℓ → Bool} (hg : ∀ s l, g s l = true → G s l)
    {s : σ} (h : M.Under G s) (ls : List ℓ) {p : σ → Bool}
    (he : (M.execIf g s ls).any p = true) : ∃ t, M.Under G t ∧ p t = true := by
  induction ls generalizing s with
  | nil => exact ⟨s, h, by simpa [execIf] using he⟩
  | cons l ls ih =>
    obtain ⟨t, ht, hp⟩ := (Option.any_eq_true _ _).mp he
    simp only [execIf, Option.ite_none_right_eq_some, Option.bind_eq_some_iff] at ht
    obtain ⟨hl, s', hs', ht⟩ := ht
    exact ih (h.step (hg s l hl) hs') ((Option.any_eq_true _ _).mpr ⟨t, ht, hp⟩)

end Machine

/-! ## Components -/

section Lowers

variable {ι β : Type*} {r : β → β → Prop}

/-- One of the components `ts` goes down, and the others stay. -/
def Lowers (r : β → β → Prop) (ts : List ι) (f g : ι → β) : Prop :=
  ∃ t ∈ ts, r (f t) (g t) ∧ ∀ u, u ≠ t → f u = g u

/-- Finitely many components cannot go down forever. -/
theorem acc_lowers (hr : WellFounded r) (ts : List ι) (f : ι → β) : Acc (Lowers r ts) f := by
  induction ts generalizing f with
  | nil =>
    refine ⟨f, ?_⟩
    rintro g ⟨t, ht, -⟩
    cases ht
  | cons t ts ih =>
    generalize hb : f t = b
    induction b using hr.induction generalizing f with
    | _ b ihb =>
      -- while the first component stays, the others go down
      have hrest := ih f
      induction hrest with
      | intro f _ ihf =>
        refine ⟨f, ?_⟩
        rintro g ⟨u, hu, hlower, hsame⟩
        by_cases hut : u = t
        · subst hut
          exact ihb (g u) (hb ▸ hlower) g rfl
        · have hmem : u ∈ ts := (List.mem_cons.mp hu).resolve_left hut
          exact ihf g ⟨u, hmem, hlower, hsame⟩ ((hsame t (Ne.symm hut)).trans hb)

end Lowers

end Transition
