-- SUMMARY: That `parLock` is held in the six getters that ask mpv, and nowhere else, and that it is always released.
import KitPlayerCore.Core.Effects
import KitPlayerCore.Session.Machine

/-!
# The lock of the getters

Six getters lock `parLock`, test the object, ask mpv, and unlock it again on each of their
ways out. Every other method takes the lock through them, again and again. So a thread that
holds it can always go on, and comes to the unlock by itself.
-/

namespace ParLock

open Core Mpv Transition Program Session

/-! ## The region under the lock -/

/-- What is left of the getter once it has taken the lock. -/
def region (g : Primitive) : Core g.Res :=
  match g.body with
  | .act (.lock .parLock) k => k ()
  | p => p

theorem body_eq (g : Primitive) : g.body = lock .parLock >>= fun _ => region g := by
  cases g <;> rfl

/-- One of the six getters is between its lock and the matching unlock. -/
def InGetter (p : Core Bool) : Prop :=
  ∃ (g : Primitive) (q : Core g.Res) (f : g.Res → Core Bool),
    Within (· = .unlock .parLock) (region g) q ∧ p = q >>= f

/-- The thread has the lock and goes on, whatever mpv answers, until it releases it. -/
def Releases (s : State) (t : Thread) : Prop :=
  ∀ answers : Nat → Answer, ∃ n s', session.exec s ((List.range n).map fun i =>
    .run t (answers i)) = some s' ∧ s'.holder .parLock = none

/-- The discipline of `parLock`. -/
structure Disciplined (s : State) : Prop where
  /-- It is held exactly in the six getters. -/
  held : ∀ t, s.holder .parLock = some t ↔ InGetter (s.program t)
  /-- No getter ends in front of its unlock. -/
  exits : ∀ (g : Primitive) q, Within (· = .unlock .parLock) (region g) q → q.done = false
  released : ∀ t b, s.program t = .ret b → s.holder .parLock ≠ some t
  /-- No thread requests it while holding it. -/
  once : ∀ t k, s.program t = .act (.lock .parLock) k → s.holder .parLock ≠ some t
  /-- Where a thread waits, another one holds the lock and is able to release it. -/
  waiting : ∀ t k, s.program t = .act (.lock .parLock) k → s.holder .parLock ≠ none →
    ∃ u, u ≠ t ∧ s.holder .parLock = some u ∧ Releases s u

/-! ## What the region does -/

/-- The two sides of the unlock. -/
inductive Side where
  | inside | outside
  deriving DecidableEq, Repr

/-- Under the lock no lock is requested, and the delegate is not called. -/
@[simp] def Side.ok : Side → Op → Prop
  | .outside, _ => False
  | .inside, .lock _ | .inside, .unlock .shutdownLock | .inside, .inDelegate => False
  | .inside, _ => True

@[simp] def Side.next : Side → (op : Op) → op.Res → Side → Prop
  | _, .unlock .parLock, _, m => m = .outside
  | m, _, _, m' => m' = m

@[simp] def rules : Rules Op Op.Res Side where
  ok := Side.ok
  admits _ _ _ := True
  next := Side.next

/-- What is left ends right after it has unlocked. -/
def Closes {α : Type} (q : Core α) : Prop := Safe rules q (fun _ m => m = .outside) .inside

theorem region_closes (g : Primitive) : Closes (region g) := by
  cases g with
  | double name => simp [Closes, region, Primitive.body, doubleGetter]
  | string key =>
    simp [Closes, region, Primitive.body, Core.getParameterStr]
    rintro _ _ (_ | _) <;> simp

/-- An operation under the lock that is not the unlock. -/
def insideOk : Op → Prop
  | .lock _ | .unlock _ | .inDelegate => False
  | _ => True

variable {α : Type} {q : Core α}

/-- What is left is the unlock, or another operation that blocks nobody. -/
theorem Closes.cases (h : Closes q) :
    (∃ k a, q = .act (.unlock .parLock) k ∧ k () = .ret a) ∨
      ∃ op k, q = .act op k ∧ insideOk op ∧ ∀ r, Closes (k r) := by
  cases q with
  | ret a => cases h
  | act op k =>
    obtain ⟨hok, hk⟩ := h
    have hstays (hnext : ∀ r, Side.next .inside op r .inside) (r : op.Res) : Closes (k r) :=
      hk r trivial .inside (hnext r)
    cases op with
    | unlock l => cases l with
      | shutdownLock => exact hok.elim
      | parLock =>
        have hlast : Safe rules (k ()) (fun _ m => m = .outside) .outside :=
          hk () trivial .outside rfl
        cases hend : k () with
        | ret a => exact .inl ⟨k, a, rfl, hend⟩
        | act op' k' =>
          rw [hend] at hlast
          exact hlast.1.elim
    | lock | inDelegate => exact hok.elim
    | get | set | call | glCall | free | initWithCString | uninitialized | dispatch | deliver =>
      exact .inr ⟨_, k, rfl, trivial, hstays fun _ => rfl⟩

theorem Closes.not_done (h : Closes q) : q.done = false := by
  obtain ⟨k, a, rfl, -⟩ | ⟨op, k, rfl, -⟩ := h.cases <;> rfl

theorem within_closes {g : Primitive} {q : Core g.Res}
    (h : Within (· = .unlock .parLock) (region g) q) : Closes q := by
  induction h with
  | start => exact region_closes g
  | step r _ hstop ih =>
    obtain ⟨k', a, heq, -⟩ | ⟨op', k', heq, -, hk⟩ := ih.cases
    · cases heq
      exact absurd rfl hstop
    · cases heq
      exact hk r

/-! ## Outside of the six getters -/

/-- An operation that has nothing to do with the lock. -/
def outsideOk : Op → Prop
  | .lock .parLock | .unlock .parLock => False
  | _ => True

theorem outsideOk_of_queueOk (op : Op) (h : queueOk op) : outsideOk op := by
  cases op with
  | lock | unlock => exact h.elim
  | get | set | call | glCall | free | initWithCString | uninitialized | dispatch | deliver
  | inDelegate => trivial

/-- The program takes the lock only through the six getters. -/
abbrev Outside {α : Type} (p : Core α) : Prop := Composed outsideOk p

theorem call_outside (c : Call) : Outside c.body := by
  by_cases hc : c = .shutDown
  · subst hc
    exact .of_only (by simp [Call.body, Core.shutDown, outsideOk])
  · exact (Call.composed hc).mono fun op h => outsideOk_of_queueOk op (queueOk_of_quietOk op h)

theorem outside_of_queueOk {p : Core α} (h : Only queueOk p) : Outside p :=
  .of_only (h.mono outsideOk_of_queueOk)

/-- One of the six getters is under way, in a program that takes the lock only through them. -/
def Inside (p : Core Bool) : Prop :=
  ∃ (g : Primitive) (q : Core g.Res) (f : g.Res → Core Bool),
    Within (· = .unlock .parLock) (region g) q ∧ p = q >>= f ∧ ∀ r, Outside (f r)

theorem Inside.inGetter {p : Core Bool} (h : Inside p) : InGetter p := by
  obtain ⟨g, q, f, hq, hp, -⟩ := h
  exact ⟨g, q, f, hq, hp⟩

/-- A program with a lock to release is not one that takes it first. -/
theorem Closes.not_outside {f : α → Core Bool} (h : Closes q) : ¬ Outside (q >>= f) := by
  induction q with
  | ret a => cases h
  | act op k ih =>
    intro hout
    have hgetter {op : Op} {k : op.Res → Core Bool} {g : Primitive} {f' : g.Res → Core Bool}
        (heq : .act op k = g.body >>= f') : op = .lock .parLock := by
      rw [body_eq] at heq
      cases heq
      rfl
    obtain ⟨k', a, heq, -⟩ | ⟨op', k', heq, hop, hk⟩ := h.cases
    · cases heq
      obtain ⟨hok, -⟩ | ⟨g, f', heq', -⟩ := hout.act_cases
      · exact hok
      · cases hgetter heq'
    · cases heq
      obtain ⟨-, hrest⟩ | ⟨g, f', heq', -⟩ := hout.act_cases
      · obtain ⟨r⟩ := op.nonempty_res
        exact ih r (hk r) (hrest r)
      · cases hgetter heq'
        exact hop

/-! ## Steps -/

/-- The holder of the lock is in one of the six getters, and nobody else is. -/
structure Placed (s : State) : Prop where
  outside : ∀ t, s.holder .parLock ≠ some t → Outside (s.program t)
  inside : ∀ t, s.holder .parLock = some t → Inside (s.program t)

theorem Placed.afterInitView (h : Handle) (o : Object) : Placed (.afterInitView h o) where
  outside _ _ := .ret _
  inside _ h := by cases h

theorem Inside.not_ret {p : Core Bool} (h : Inside p) (b : Bool) : p ≠ .ret b := by
  obtain ⟨g, q, f, hq, rfl, -⟩ := h
  obtain ⟨k, a, rfl, -⟩ | ⟨op, k, rfl, -⟩ := (within_closes hq).cases <;> nofun

/-- The thread `t` goes on, and the lock changes hands only if it takes or releases it. -/
theorem Placed.goto {s m : State} {t : Thread} {p : Core Bool} (h : Placed s)
    (hprogram : m.program = s.program)
    (hothers : ∀ u, u ≠ t → (m.holder .parLock = some u ↔ s.holder .parLock = some u))
    (hin : m.holder .parLock = some t → Inside p)
    (hout : m.holder .parLock ≠ some t → Outside p) : Placed (m.goto t p) where
  outside u hu := by
    by_cases hut : u = t
    · subst hut
      simpa using hout hu
    · rw [State.goto_program_of_ne _ _ hut, hprogram]
      exact h.outside u fun hs => hu ((hothers u hut).mpr hs)
  inside u hu := by
    by_cases hut : u = t
    · subst hut
      simpa using hin hu
    · rw [State.goto_program_of_ne _ _ hut, hprogram]
      exact h.inside u ((hothers u hut).mp hu)

/-- A thread that has nothing left to do does not hold the lock, and starts on another program. -/
theorem Placed.start {s m : State} {t : Thread} {b : Bool} {p : Core Bool} (h : Placed s)
    (hp : s.program t = .ret b) (hprogram : m.program = s.program) (hholder : m.holder = s.holder)
    (hout : Outside p) : Placed (m.goto t p) := by
  refine h.goto hprogram (fun u _ => by rw [hholder]) (fun hheld => ?_) fun _ => hout
  rw [hholder] at hheld
  exact absurd hp ((h.inside t hheld).not_ret b)

theorem perform_holder {s m : State} {t : Thread} {a : Answer} {op : Op} {r : op.Res}
    (hop : outsideOk op) (hm : s.perform t a op = some (r, m)) :
    m.holder .parLock = s.holder .parLock := by
  refine (State.perform_frame hm).holder _ ?_ ?_
  · rintro rfl
    exact hop
  · rintro rfl
    exact hop

/-- Nothing under the lock blocks. -/
theorem perform_inside (s : State) (t : Thread) (a : Answer) {op : Op} (hop : insideOk op) :
    ∃ r m, s.perform t a op = some (r, m) := by
  cases op with
  | lock | unlock | inDelegate => exact hop.elim
  | get | set | call | glCall | free | initWithCString | uninitialized | dispatch | deliver =>
    exact ⟨_, _, rfl⟩

theorem outsideOk_of_insideOk {op : Op} (hop : insideOk op) : outsideOk op := by
  cases op with
  | lock | unlock | inDelegate => exact hop.elim
  | get | set | call | glCall | free | initWithCString | uninitialized | dispatch | deliver =>
    trivial

theorem ne_inDelegate_of_insideOk {op : Op} (hop : insideOk op) : op ≠ .inDelegate := by
  rintro rfl
  exact hop

/-- The delegate may make any call. -/
theorem resume_outside (a : Answer) {op : Op} {k : op.Res → Core Bool} (hop : outsideOk op)
    (hk : ∀ r, Outside (k r)) (r : op.Res) : Outside (a.resume op k r) := by
  cases op with
  | inDelegate =>
    simp only [Answer.resume]
    split
    · exact (call_outside _).bind fun _ => .act hop hk
    · exact hk r
  | get | set | lock | unlock | call | glCall | free | initWithCString | uninitialized | dispatch
  | deliver => exact hk r

/-- The holder of the lock goes on in its getter, or comes out of it. -/
theorem Placed.runInside {s s' : State} {t : Thread} {a : Answer} (h : Placed s)
    (hheld : s.holder .parLock = some t) (hs : Session.step s (.run t a) = some s') :
    Placed s' := by
  obtain ⟨op, k, r, m, hp, hm, rfl⟩ := run_cases hs
  obtain ⟨g, q, f, hq, hprogram, hf⟩ := h.inside t hheld
  rw [hp] at hprogram
  obtain ⟨k', x, rfl, hlast⟩ | ⟨op', k', rfl, hop, -⟩ := (within_closes hq).cases
  · cases hprogram
    obtain ⟨-, rfl⟩ := Prod.mk.inj (Option.some.inj hm)
    refine h.goto rfl (fun u hu => ?_) (fun hnone => ?_) fun _ => ?_
    · simp [hheld, hu.symm]
    · simp at hnone
    · have hout : Outside (k' () >>= f) := by
        rw [hlast]
        exact hf x
      exact hout
  · cases hprogram
    have hholder := perform_holder (outsideOk_of_insideOk hop) hm
    rw [a.resume_of_ne (ne_inDelegate_of_insideOk hop)]
    refine h.goto (State.perform_program hm) (fun u _ => by rw [hholder]) (fun _ => ?_)
      fun hne => ?_
    · refine ⟨g, k' r, f, hq.step r ?_, rfl, hf⟩
      rintro rfl
      exact hop
    · rw [hholder] at hne
      exact absurd hheld hne

/-- Another thread goes on, and may take the lock if it is free. -/
theorem Placed.runOutside {s s' : State} {t : Thread} {a : Answer} (h : Placed s)
    (hheld : s.holder .parLock ≠ some t) (hs : Session.step s (.run t a) = some s') :
    Placed s' := by
  obtain ⟨op, k, r, m, hp, hm, rfl⟩ := run_cases hs
  have hout := h.outside t hheld
  rw [hp] at hout
  obtain ⟨hok, hk⟩ | ⟨g, f, heq, hf⟩ := hout.act_cases
  · have hholder := perform_holder hok hm
    refine h.goto (State.perform_program hm) (fun u _ => by rw [hholder]) (fun hin => ?_)
      fun _ => resume_outside a hok hk r
    rw [hholder] at hin
    exact absurd hin hheld
  · rw [body_eq] at heq
    cases heq
    simp only [State.perform, Option.ite_none_right_eq_some, Option.some.injEq,
      Prod.mk.injEq] at hm
    obtain ⟨hfree, -, rfl⟩ := hm
    refine h.goto rfl (fun u hu => ?_) (fun _ => ⟨g, region g, f, .start, rfl, hf⟩) fun hne => ?_
    · simp [hfree, hu.symm]
    · simp at hne

theorem Placed.step {s s' : State} {l : Label} (h : Placed s) (hs : Session.step s l = some s') :
    Placed s' := by
  cases l with
  | call n c =>
    obtain ⟨⟨b, hp⟩, rfl⟩ := call_cases hs
    have hplaced : Placed { s with called := s.called ++ [c] } := ⟨h.outside, h.inside⟩
    exact hplaced.start hp rfl rfl ((call_outside c).bind fun _ => .ret _)
  | wakeup n =>
    obtain ⟨⟨b, hp⟩, rfl⟩ := wakeup_cases hs
    have hout : Outside Core.wakeup := outside_of_queueOk (wakeup_quietOk.mono queueOk_of_quietOk)
    exact h.start hp rfl rfl (hout.bind fun _ => .ret _)
  | take =>
    obtain ⟨hp, b, bs, -, rfl⟩ := take_cases hs
    have hplaced : Placed { s with queue := bs } := ⟨h.outside, h.inside⟩
    exact hplaced.start hp rfl rfl (outside_of_queueOk b.queueOk)
  | again =>
    obtain ⟨hp, rfl⟩ := again_cases hs
    exact h.start hp rfl rfl (outside_of_queueOk readEventsPass_queueOk)
  | run t a =>
    by_cases hheld : s.holder .parLock = some t
    · exact h.runInside hheld hs
    · exact h.runOutside hheld hs

theorem placed_of_reachable {s : State} (h : session.Reachable s) : Placed s :=
  h.invariant (by rintro _ ⟨h, o, rfl⟩; exact .afterInitView h o) fun _ _ _ h _ hs => h.step hs

/-! ## Releasing the lock -/

/-- From anywhere under the lock the thread comes to its unlock. -/
theorem Closes.releases {f : α → Core Bool} (h : Closes q) {s : State} {t : Thread}
    (hp : s.program t = q >>= f) : Releases s t := by
  induction q generalizing s with
  | ret a => cases h
  | act op k ih =>
    intro answers
    obtain ⟨k', a, heq, -⟩ | ⟨op', k', heq, hop, hk⟩ := h.cases
    · cases heq
      let freed : State := { s with holder := Function.update s.holder .parLock none }
      have hstep : Session.step s (.run t (answers 0)) = some (freed.goto t (k' () >>= f)) := by
        simp only [Session.step, hp, act_bind, State.perform, Option.map_some]
        rfl
      refine ⟨1, freed.goto t (k' () >>= f), ?_, by simp [freed, State.goto]⟩
      simp [Machine.exec, session, hstep]
    · cases heq
      obtain ⟨r, m, hm⟩ := perform_inside s t (answers 0) hop
      have hstep : Session.step s (.run t (answers 0)) = some (m.goto t (k r >>= f)) := by
        simp only [Session.step, hp, act_bind, hm, Option.map_some,
          Answer.resume_of_ne _ (ne_inDelegate_of_insideOk hop)]
      obtain ⟨n, s', hexec, hfree⟩ := ih r (hk r) (s := m.goto t (k r >>= f))
        (by simp) fun i => answers (i + 1)
      refine ⟨n + 1, s', ?_, hfree⟩
      rw [List.range_succ_eq_map, List.map_cons, List.map_map]
      simpa [Machine.exec, session, hstep, Function.comp_def] using hexec

/-! ## What comes out of it -/

/-- In every reachable state `parLock` is held exactly in the six getters that lock it, and
    whoever waits for it waits for a thread that releases it. -/
theorem disciplined_of_reachable {s : State} (h : session.Reachable s) : Disciplined s := by
  have hplaced := placed_of_reachable h
  refine ⟨fun t => ⟨fun ht => (hplaced.inside t ht).inGetter, fun hin => ?_⟩, ?_, ?_, ?_, ?_⟩
  · by_contra ht
    obtain ⟨g, q, f, hq, hp⟩ := hin
    have hout := hplaced.outside t ht
    rw [hp] at hout
    exact (within_closes hq).not_outside hout
  · exact fun g q hq => (within_closes hq).not_done
  · exact fun t b hp ht => (hplaced.inside t ht).not_ret b hp
  · intro t k hp ht
    obtain ⟨g, q, f, hq, heq, -⟩ := hplaced.inside t ht
    rw [hp] at heq
    obtain ⟨k', x, rfl, -⟩ | ⟨op, k', rfl, hop, -⟩ := (within_closes hq).cases
    · cases heq
    · cases heq
      exact hop
  · intro t k hp hheld
    obtain ⟨u, hu⟩ := Option.ne_none_iff_exists'.mp hheld
    obtain ⟨g, q, f, hq, heq, -⟩ := hplaced.inside u hu
    refine ⟨u, ?_, hu, (within_closes hq).releases heq⟩
    rintro rfl
    rw [hp] at heq
    obtain ⟨k', x, rfl, -⟩ | ⟨op, k', rfl, hop, -⟩ := (within_closes hq).cases
    · cases heq
    · cases heq
      exact hop

/-- One thread asks for the duration, and another one waits to do so. -/
theorem disciplined_while_waiting :
    ∃ s, Disciplined s ∧ s.holder .parLock = some (.caller 0) ∧
      (s.program (.caller 1)).done = false := by
  obtain ⟨s, hs, htest⟩ := Machine.Reachable.exec_any
    (.init ⟨1, {}, rfl⟩ : session.Reachable (.afterInitView 1 {}))
    (calls 0 (.getter .duration) 1 ++ calls 1 (.getter .isLive) 0)
    (p := fun s => decide (s.holder .parLock = some (.caller 0)) && !(s.program (.caller 1)).done)
    (by decide +kernel)
  simp only [Bool.and_eq_true, decide_eq_true_eq, Bool.not_eq_true'] at htest
  exact ⟨s, disciplined_of_reachable hs, htest⟩

end ParLock
