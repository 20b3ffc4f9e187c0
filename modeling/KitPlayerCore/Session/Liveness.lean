-- SUMMARY: That no call of the player hangs by itself: the calls under way come to their end, or to a call into mpv or its gl context that does not return.
import KitPlayerCore.Session.Destruction
import KitPlayerCore.Session.ParLock

/-!
# Liveness

A thread waits for nothing but the two locks of the object, and for what it calls: mpv and its gl
context. Whoever has one of the locks requests no other one before it releases it, so it can go on
while what it calls returns. And a call is a finite program, whatever mpv answers it.

That mpv returns is no matter of course: `mpv_opengl_cb_set_update_callback` waits for
`update_lock`, under which `update` calls the view back. So it is left open here which calls return.
-/

namespace Liveness

open Core Mpv Transition Program Session

variable {s s' : State} {t : Thread} {l : Label}

/-- A thread goes on with what it has begun. The delegate returns, and makes no call before. -/
def GoesOn : Label → Prop
  | .run _ a => a.delegate = none
  | .call _ _ | .wakeup _ | .take | .again => False

/-- The operation is a call into mpv or its gl context. -/
def foreign : Op → Bool
  | .call _ _ | .glCall _ => true
  | _ => false

/-- The thread `t` is in such a call, and the call does not return, if `hangs` says so. -/
def stuck (hangs : State → Thread → Bool) (s : State) (t : Thread) : Bool :=
  match s.program t with
  | .act op _ => foreign op && hangs s t
  | .ret _ => false

/-- The object, where the calls that it makes do not return while `hangs` holds. -/
def player (hangs : State → Thread → Bool) : Machine State Label where
  init := session.init
  step s l :=
    match l with
    | .run t a => if stuck hangs s t then none else session.step s (.run t a)
    | l => session.step s l

/-- The thread is in a call that does not return, or waits for a lock that such a thread has. -/
def Stalled (hangs : State → Thread → Bool) (s : State) (t : Thread) : Prop :=
  stuck hangs s t = true ∨
    ∃ k f u, s.program t = .act (.lock k) f ∧ s.holder k = some u ∧ stuck hangs s u = true

/-- No thread has anything left to do that it can do. -/
def Quiet (hangs : State → Thread → Bool) (s : State) : Prop :=
  ∀ t, (s.program t).done = true ∨ Stalled hangs s t

/-- Where every call returns, nothing is left to do. -/
theorem quiet_of_returns : Quiet (fun _ _ => false) s ↔ ∀ t, (s.program t).done = true := by
  have hstuck (t : Thread) : stuck (fun _ _ => false) s t = false := by
    unfold stuck
    split
    · exact Bool.and_false _
    · rfl
  simp [Quiet, Stalled, hstuck]

variable {hangs : State → Thread → Bool}

theorem step_of_player (h : (player hangs).step s l = some s') : session.step s l = some s' := by
  cases l with
  | run t a =>
    simp only [player, Option.ite_none_left_eq_some] at h
    exact h.2
  | call | wakeup | take | again => exact h

/-! ## The holder of a lock -/

/-- Every run of the player is one in which the teardown is recorded. -/
theorem recorded (hs : session.Reachable s) :
    ∃ h d, (Destruction.destruction h).Reachable d ∧ d.session = s := by
  refine hs.invariant (I := fun s => ∃ h d, (Destruction.destruction h).Reachable d ∧
    d.session = s) ?_ ?_
  · rintro _ ⟨h, o, rfl⟩
    exact ⟨h, _, .init ⟨o, rfl⟩, rfl⟩
  · rintro _ s' l ⟨h, d, hd, rfl⟩ - hstep
    have hrecord : Destruction.step d l = some { d.record l with session := s' } := by
      have hstep : Session.step d.session l = some s' := hstep
      rw [Destruction.step, hstep, Option.map_some]
    exact ⟨h, _, hd.step trivial hrecord, rfl⟩

/-- Whoever is in `shutDown` with its lock requests no other one. -/
theorem holds_follows {h : Handle} {p : Core Bool} {m : Destruction.Stage}
    (hp : Destruction.Follows h p m) (hm : m.Holds) :
    ∃ op k, p = .act op k ∧ ∀ l, op ≠ .lock l := by
  cases p with
  | ret b =>
    obtain rfl : m = .outside := hp
    exact hm.elim
  | act op k =>
    refine ⟨op, k, rfl, ?_⟩
    rintro l rfl
    have hok : m.ok h (.lock l) := hp.1
    cases m with
    | outside | called => exact hm
    | locked => cases hok
    | tearing j => exact hok.1 rfl
    | leaving => cases hok

/-- Whoever has a lock is about to do something that does not wait. -/
theorem busy_of_held (hs : session.Reachable s) {k : Lock} (hheld : s.holder k = some t) :
    ∃ op f, s.program t = .act op f ∧ ∀ l, op ≠ .lock l := by
  cases k with
  | shutdownLock =>
    obtain ⟨h, d, hd, rfl⟩ := recorded hs
    obtain ⟨m, hm⟩ := Destruction.orderly_of_reachable hd
    exact holds_follows (hm.follows t) ((hm.holder t).mp hheld)
  | parLock =>
    obtain ⟨g, q, f, hq, hp, -⟩ := (ParLock.placed_of_reachable hs).inside t hheld
    obtain ⟨k, a, rfl, -⟩ | ⟨op, k, rfl, hop, -⟩ := (ParLock.within_closes hq).cases
    · exact ⟨_, _, hp, by rintro l ⟨⟩⟩
    · refine ⟨_, _, hp, ?_⟩
      rintro l rfl
      exact hop

/-! ## Going on -/

/-- Only a lock that is held makes a thread wait. -/
theorem perform_or_held (s : State) (t : Thread) (a : Answer) (op : Op) :
    (∃ r m, s.perform t a op = some (r, m)) ∨ ∃ k u, op = .lock k ∧ s.holder k = some u := by
  cases op with
  | lock k =>
    cases hholder : s.holder k with
    | none => exact .inl ⟨_, _, if_pos hholder⟩
    | some u => exact .inr ⟨k, u, rfl, hholder⟩
  | get | set | unlock | call | glCall | free | initWithCString | uninitialized | dispatch
  | deliver | inDelegate => exact .inl ⟨_, _, rfl⟩

theorem run_of_perform {a : Answer} {op : Op} {f : op.Res → Core Bool}
    (hp : s.program t = .act op f) (hm : ∃ r m, s.perform t a op = some (r, m))
    (hstuck : stuck hangs s t = false) : ∃ s', (player hangs).step s (.run t a) = some s' := by
  obtain ⟨r, m, hm⟩ := hm
  refine ⟨m.goto t (a.resume op f r), ?_⟩
  simp only [player, hstuck, Bool.false_eq_true, if_false]
  simp only [session, Session.step, hp, hm, Option.map_some]

/-- While a thread has something left to do that it can do, some thread can go on. -/
theorem goesOn_of_reachable (hs : session.Reachable s) :
    Quiet hangs s ∨ ∃ l s', GoesOn l ∧ (player hangs).step s l = some s' := by
  by_cases hquiet : Quiet hangs s
  · exact .inl hquiet
  · refine .inr ?_
    obtain ⟨t, ht⟩ := not_forall.mp hquiet
    obtain ⟨hdone, hstalled⟩ := not_or.mp ht
    have hstuck : stuck hangs s t = false := by simpa using fun h => hstalled (.inl h)
    cases hp : s.program t with
    | ret b =>
      rw [hp] at hdone
      exact absurd rfl hdone
    | act op f =>
      obtain hm | ⟨k, u, rfl, hheld⟩ := perform_or_held s t {} op
      · obtain ⟨s', hs'⟩ := run_of_perform hp hm hstuck
        exact ⟨.run t {}, s', rfl, hs'⟩
      -- the thread that has the lock goes on
      · have hstucku : stuck hangs s u = false := by
          simpa using fun h => hstalled (.inr ⟨k, f, u, hp, hheld, h⟩)
        obtain ⟨op, f, hu, hop⟩ := busy_of_held hs hheld
        obtain hm | ⟨k, -, rfl, -⟩ := perform_or_held s u {} op
        · obtain ⟨s', hs'⟩ := run_of_perform hu hm hstucku
          exact ⟨.run u {}, s', rfl, hs'⟩
        · exact absurd rfl (hop k)

/-! ## Coming to an end -/

/-- All that is left to do is left to the threads `ts`. -/
def Active (ts : List Thread) (s : State) : Prop := ∀ t, t ∉ ts → (s.program t).done = true

theorem Active.goto {ts : List Thread} (h : Active ts s) (hprogram : s'.program = s.program)
    (p : Core Bool) : Active (t :: ts) (s'.goto t p) := by
  intro u hu
  rw [List.mem_cons, not_or] at hu
  rw [State.goto_program_of_ne _ _ hu.1, hprogram]
  exact h u hu.2

/-- Only finitely many threads have ever made a call. -/
theorem active_of_reachable (hs : session.Reachable s) : ∃ ts, Active ts s := by
  refine hs.invariant (I := fun s => ∃ ts, Active ts s) ?_ ?_
  · rintro _ ⟨h, o, rfl⟩
    exact ⟨[], fun _ _ => rfl⟩
  · rintro s s' l ⟨ts, hts⟩ - hstep
    cases l with
    | call n c =>
      obtain ⟨-, rfl⟩ := call_cases hstep
      exact ⟨_, hts.goto rfl _⟩
    | wakeup n =>
      obtain ⟨-, rfl⟩ := wakeup_cases hstep
      exact ⟨_, hts.goto rfl _⟩
    | take =>
      obtain ⟨-, b, bs, -, rfl⟩ := take_cases hstep
      exact ⟨_, hts.goto rfl _⟩
    | again =>
      obtain ⟨-, rfl⟩ := again_cases hstep
      exact ⟨_, hts.goto rfl _⟩
    | run t a =>
      obtain ⟨op, k, r, m, -, hm, rfl⟩ := run_cases hstep
      exact ⟨_, hts.goto (State.perform_program hm) _⟩

theorem resume_of_none {a : Answer} (ha : a.delegate = none) {op : Op} (k : op.Res → Core Bool)
    (r : op.Res) : a.resume op k r = k r := by
  by_cases hop : op = .inDelegate
  · subst hop
    simp only [Answer.resume, ha]
  · exact a.resume_of_ne hop k r

/-- A thread that goes on has less left to do than before, and the others as much. -/
theorem lowers_of_goesOn {ts : List Thread} (hts : Active ts s) (hl : GoesOn l)
    (hs : Session.step s l = some s') : Active ts s' ∧ Lowers After ts s'.program s.program := by
  cases l with
  | run t a =>
    obtain ⟨op, k, r, m, hp, hm, rfl⟩ := run_cases hs
    have hmem : t ∈ ts := by
      by_contra hno
      have hdone := hts t hno
      rw [hp] at hdone
      cases hdone
    have hothers (u : Thread) (hu : u ≠ t) :
        (m.goto t (a.resume op k r)).program u = s.program u := by
      rw [State.goto_program_of_ne _ _ hu, State.perform_program hm]
    refine ⟨fun u hu => ?_, t, hmem, ?_, hothers⟩
    · have hne : u ≠ t := by
        rintro rfl
        exact hu hmem
      rw [hothers u hne]
      exact hts u hu
    · rw [State.goto_program_self, hp, resume_of_none hl]
      exact .act op k r
  | call | wakeup | take | again => exact hl.elim

end Liveness
