-- SUMMARY: The player in use: threads that call it, the serial queue, the delegate, and mpv's answers.
import KitPlayerCore.Core.Interface
import KitPlayerCore.Transition.Machine
import Mathlib.Logic.Function.Basic

/-!
# Sessions

Any number of threads call the player. The serial queue runs the dispatched
blocks one after the other, and the delegate is called on the queue and may call
the player back. A step is one operation of one thread, so that all orders of
the operations of different threads are runs. What mpv answers is up to the run.
-/

namespace Session

open Core Mpv Transition

inductive Thread where
  /-- The serial queue. -/
  | queue
  | caller (n : Nat)
  deriving DecidableEq, Repr

/-- The state of one object between its `initView` and the next. The three last
    fields record what happened: the calls made, and the calls of mpv with a
    handle in use and with a handle that was null or destroyed. -/
structure State where
  obj : Object
  destroyed : List Handle := []
  holder : Lock → Option Thread := fun _ => none
  /-- The blocks that are pending, the next one first. -/
  queue : List Block := []
  /-- What each thread has left to do, and whether the queue is then to make
      another pass of the loop in `readEvents`. -/
  program : Thread → Core Bool := fun _ => .ret false
  called : List Call := []
  executed : List Api := []
  misused : List Api := []

/-- What the outside decides about one step. -/
structure Answer where
  status : Int := 0
  event : Event := ⟨.none, .none⟩
  pointer : Pointer := 0
  int : Int := 0
  double : Float := 0
  text : Option NSString := none
  /-- The next call that the delegate makes, `none` when it returns. -/
  delegate : Option Call := none

def Answer.property (a : Answer) : (format : Format) → format.type
  | .string => a.pointer
  | .flag => a.int
  | .int64 => a.int
  | .double => a.double

/-- What mpv answers a call. -/
def Answer.api (a : Answer) : (f : Api) → f.Res
  | .setOptionString _ _ => a.status
  | .command _ => a.status
  | .setProperty _ _ => a.status
  | .getProperty _ format => if a.status < 0 then .error a.status else .ok (a.property format)
  | .waitEvent => a.event
  | .clearWakeupCallback => ()
  | .detachDestroy => ()

namespace State

/-- The handle may be passed to mpv. -/
def Live (s : State) (h : Option Handle) : Prop := ∃ h' ∈ h, h' ∉ s.destroyed

instance (s : State) (h : Option Handle) : Decidable (s.Live h) :=
  match h with
  | none => .isFalse (by simp [Live])
  | some h => decidable_of_iff (h ∉ s.destroyed) (by simp [Live])

/-- Call mpv with the handle `h`. -/
def invoke (s : State) (h : Option Handle) (f : Api) : State :=
  if s.Live h then
    match f with
    | .detachDestroy =>
      { s with executed := s.executed ++ [f], destroyed := h.toList ++ s.destroyed }
    | f => { s with executed := s.executed ++ [f] }
  else { s with misused := s.misused ++ [f] }

/-- The effect of an operation on the thread `t`. A lock that is held blocks. -/
def perform (s : State) (t : Thread) (a : Answer) : (op : Op) → Option (op.Res × State)
  | .get v => some (s.obj.get v, s)
  | .set v x => some ((), { s with obj := s.obj.set v x })
  | .lock l =>
    if s.holder l = none then
      some ((), { s with holder := Function.update s.holder l (some t) })
    else none
  | .unlock l => some ((), { s with holder := Function.update s.holder l none })
  | .call h f => some (a.api f, s.invoke h f)
  | .glCall _ => some ((), s)
  | .free _ => some ((), s)
  | .initWithCString _ => some (a.text, s)
  | .uninitialized => some (a.double, s)
  | .dispatch b => some ((), { s with queue := s.queue ++ [b] })
  | .deliver _ => some ((), s)
  | .inDelegate => some ((), s)

/-- The thread `t` is to go on with `p`. -/
def goto (s : State) (t : Thread) (p : Core Bool) : State :=
  { s with program := Function.update s.program t p }

end State

/-- A method that a thread runs from its start. -/
def entry (p : Core Unit) : Core Bool := p >>= fun _ => .ret false

/-- The delegate stays in control while it makes calls. -/
def Answer.resume (a : Answer) : (op : Op) → (op.Res → Core Bool) → op.Res → Core Bool
  | .inDelegate, k, r =>
    match a.delegate with
    | some c => c.body >>= fun _ => .act .inDelegate k
    | none => k r
  | _, k, r => k r

inductive Label where
  /-- The thread `n` calls a public method. -/
  | call (n : Nat) (c : Call)
  /-- mpv calls the wakeup callback on its thread `n`. -/
  | wakeup (n : Nat)
  /-- The queue takes the next block. -/
  | take
  /-- The queue makes another pass of its loop. -/
  | again
  | run (t : Thread) (a : Answer)

def step (s : State) : Label → Option State
  | .call n c =>
    match s.program (.caller n) with
    | .ret _ => some ({ s with called := s.called ++ [c] }.goto (.caller n) (entry c.body))
    | .act _ _ => none
  | .wakeup n =>
    match s.program (.caller n) with
    | .ret _ => some (s.goto (.caller n) (entry Core.wakeup))
    | .act _ _ => none
  | .take =>
    match s.program .queue, s.queue with
    | .ret false, b :: bs => some ({ s with queue := bs }.goto .queue b.body)
    | _, _ => none
  | .again =>
    match s.program .queue with
    | .ret true => some (s.goto .queue readEventsPass)
    | _ => none
  | .run t a =>
    match s.program t with
    | .ret _ => none
    | .act op k => (s.perform t a op).map fun r => r.2.goto t (a.resume op k r.1)

/-- Right after a successful `initView` that made the handle `h`. -/
def State.afterInitView (h : Handle) (o : Object) : State where
  obj := { o with mpv := some h }
  queue := registered o

def session : Machine State Label where
  init s := ∃ h o, s = .afterInitView h o
  step := step

/-! ## Pieces of runs -/

/-- The thread goes on for `k` operations. -/
def runs (t : Thread) (k : Nat) : List Label := .replicate k (.run t {})

/-- The thread `n` makes a call and goes on for `k` operations. -/
def calls (n : Nat) (c : Call) (k : Nat) : List Label := .call n c :: runs (.caller n) k

/-- The queue takes a block and goes on for `k` operations. -/
def takes (k : Nat) : List Label := .take :: runs .queue k

/-! ## Moving a thread -/

namespace State

@[simp] theorem goto_obj (s : State) (t : Thread) (p : Core Bool) : (s.goto t p).obj = s.obj := rfl

@[simp] theorem goto_destroyed (s : State) (t : Thread) (p : Core Bool) :
    (s.goto t p).destroyed = s.destroyed := rfl

@[simp] theorem goto_queue (s : State) (t : Thread) (p : Core Bool) :
    (s.goto t p).queue = s.queue := rfl

@[simp] theorem goto_called (s : State) (t : Thread) (p : Core Bool) :
    (s.goto t p).called = s.called := rfl

@[simp] theorem goto_executed (s : State) (t : Thread) (p : Core Bool) :
    (s.goto t p).executed = s.executed := rfl

@[simp] theorem goto_misused (s : State) (t : Thread) (p : Core Bool) :
    (s.goto t p).misused = s.misused := rfl

@[simp] theorem goto_program_self (s : State) (t : Thread) (p : Core Bool) :
    (s.goto t p).program t = p := by
  simp [goto]

theorem goto_program (s : State) (t u : Thread) (p : Core Bool) :
    (s.goto t p).program u = if u = t then p else s.program u := by
  simp [goto, Function.update_apply]

theorem goto_program_of_ne (s : State) {t u : Thread} (p : Core Bool) (h : u ≠ t) :
    (s.goto t p).program u = s.program u := by
  simp [goto, h]

end State

/-- The delegate apart, a thread goes on with what its program has left. -/
theorem Answer.resume_of_ne {op : Op} (a : Answer) (hop : op ≠ .inDelegate)
    (k : op.Res → Core Bool) (r : op.Res) : a.resume op k r = k r := by
  cases op with
  | inDelegate => exact absurd rfl hop
  | get | set | lock | unlock | call | glCall | free | initWithCString | uninitialized | dispatch
  | deliver => rfl

/-! ## What each label can do -/

theorem call_cases {s s' : State} {n : Nat} {c : Call} (h : step s (.call n c) = some s') :
    (∃ b, s.program (.caller n) = .ret b) ∧
      s' = { s with called := s.called ++ [c] }.goto (.caller n) (entry c.body) := by
  simp only [step] at h
  split at h
  · rename_i b hp
    exact ⟨⟨b, hp⟩, (Option.some.inj h).symm⟩
  · cases h

theorem wakeup_cases {s s' : State} {n : Nat} (h : step s (.wakeup n) = some s') :
    (∃ b, s.program (.caller n) = .ret b) ∧ s' = s.goto (.caller n) (entry Core.wakeup) := by
  simp only [step] at h
  split at h
  · rename_i b hp
    exact ⟨⟨b, hp⟩, (Option.some.inj h).symm⟩
  · cases h

theorem take_cases {s s' : State} (h : step s .take = some s') :
    s.program .queue = .ret false ∧ ∃ b bs, s.queue = b :: bs ∧
      s' = { s with queue := bs }.goto .queue b.body := by
  simp only [step] at h
  split at h
  · rename_i b bs hp hq
    exact ⟨hp, b, bs, hq, (Option.some.inj h).symm⟩
  · cases h

theorem again_cases {s s' : State} (h : step s .again = some s') :
    s.program .queue = .ret true ∧ s' = s.goto .queue readEventsPass := by
  simp only [step] at h
  split at h
  · rename_i hp
    exact ⟨hp, (Option.some.inj h).symm⟩
  · cases h

theorem run_cases {s s' : State} {t : Thread} {a : Answer} (h : step s (.run t a) = some s') :
    ∃ op k r m, s.program t = .act op k ∧ s.perform t a op = some (r, m) ∧
      s' = m.goto t (a.resume op k r) := by
  simp only [step] at h
  split at h
  · cases h
  · rename_i op k hp
    simp only [Option.map_eq_some_iff, Prod.exists] at h
    obtain ⟨r, m, hm, rfl⟩ := h
    exact ⟨op, k, r, m, hp, hm, rfl⟩

/-- A call of mpv changes nothing but the records. -/
theorem State.invoke_eq (s : State) (h : Option Handle) (f : Api) :
    ∃ destroyed executed misused, s.invoke h f =
      { s with destroyed := destroyed, executed := executed, misused := misused } ∧
        (f ≠ .detachDestroy → destroyed = s.destroyed) := by
  unfold invoke
  split
  · cases f with
    | detachDestroy => exact ⟨_, _, _, rfl, fun hf => absurd rfl hf⟩
    | setOptionString | command | setProperty | getProperty | waitEvent | clearWakeupCallback =>
      exact ⟨_, _, _, rfl, fun _ => rfl⟩
  · exact ⟨_, _, _, rfl, fun _ => rfl⟩

/-- What an operation leaves alone. -/
structure State.Frame (op : Op) (s m : State) : Prop where
  program : m.program = s.program
  called : m.called = s.called
  obj : (∀ v x, op ≠ .set v x) → m.obj = s.obj
  holder : ∀ l, op ≠ .lock l → op ≠ .unlock l → m.holder l = s.holder l
  destroyed : (∀ h, op ≠ .call h .detachDestroy) → m.destroyed = s.destroyed

theorem State.perform_frame {s m : State} {t : Thread} {a : Answer} {op : Op} {r : op.Res}
    (h : s.perform t a op = some (r, m)) : Frame op s m := by
  cases op <;> simp only [perform, Option.some.injEq, Prod.mk.injEq, Option.ite_none_right_eq_some]
    at h
  case set v x =>
    obtain ⟨-, rfl⟩ := h
    exact ⟨rfl, rfl, fun hne => absurd rfl (hne v x), fun _ _ _ => rfl, fun _ => rfl⟩
  case lock l =>
    obtain ⟨-, -, rfl⟩ := h
    refine ⟨rfl, rfl, fun _ => rfl, fun k hne _ => ?_, fun _ => rfl⟩
    have hkl : k ≠ l := by
      rintro rfl
      exact hne rfl
    exact Function.update_of_ne hkl _ _
  case unlock l =>
    obtain ⟨-, rfl⟩ := h
    refine ⟨rfl, rfl, fun _ => rfl, fun k _ hne => ?_, fun _ => rfl⟩
    have hkl : k ≠ l := by
      rintro rfl
      exact hne rfl
    exact Function.update_of_ne hkl _ _
  case call hd f =>
    obtain ⟨-, rfl⟩ := h
    obtain ⟨destroyed, executed, misused, heq, hdestroyed⟩ := s.invoke_eq hd f
    rw [heq]
    refine ⟨rfl, rfl, fun _ => rfl, fun _ _ _ => rfl, fun hne => hdestroyed ?_⟩
    rintro rfl
    exact hne hd rfl
  all_goals
    obtain ⟨-, rfl⟩ := h
    exact ⟨rfl, rfl, fun _ => rfl, fun _ _ _ => rfl, fun _ => rfl⟩

/-- Performing an operation moves no thread. -/
theorem State.perform_program {s m : State} {t : Thread} {a : Answer} {op : Op} {r : op.Res}
    (h : s.perform t a op = some (r, m)) : m.program = s.program :=
  (perform_frame h).program

end Session
