-- SUMMARY: The dispatch queue of `dispatch.c`: threads that take the lock of the core, or run callbacks in its thread, as a machine.
import KitPlayerCore.Transition.Machine
import KitPlayerCore.Transition.Monitor

/-!
# The dispatch queue

The target thread lets others in only while it is in `mp_dispatch_queue_process`. There it
runs the callbacks that were queued, and waits while another thread has the lock. A call
of mpv that reads a property, sets one or gives a command takes this lock around its work.

A step is one region under `queue->lock`, from where a thread gets the mutex to where it
releases it or waits. `wakeup_fn`, which is called without the mutex, is up to whoever set it.
-/

namespace Dispatch

open Transition

/-- `struct mp_dispatch_item`. -/
structure Item (α : Type) where
  /-- The item as a pointer: how many calls of `mp_dispatch_append` came before. -/
  id : Nat
  /-- `fn` with its `fn_data`. -/
  fn : α
  asynchronous : Bool
  mergeable : Bool := false
  deriving DecidableEq, Repr

/-- What the target thread waits for. -/
inductive TargetWait where
  /-- In `pthread_cond_wait`, until no lock is requested. -/
  | noRequests
  /-- In `pthread_cond_timedwait`, until there is something to do. -/
  | work
  deriving DecidableEq, Repr

/-- Where the target thread is. -/
inductive TargetSpot (α : Type) where
  /-- Not in `mp_dispatch_queue_process`. -/
  | outside
  /-- In the callback of an item. -/
  | running (item : Item α)
  deriving DecidableEq, Repr

/-- What another thread waits for. -/
inductive ClientWait where
  /-- In the first loop of `mp_dispatch_lock`, until the target thread is `in_process`. -/
  | inProcess
  /-- In the second loop, until the target thread is not `locked`. -/
  | unlocked
  /-- In `mp_dispatch_run`, until the item is `completed`. -/
  | completed (id : Nat)
  deriving DecidableEq, Repr

/-- Where another thread is. -/
inductive ClientSpot where
  /-- In no function of the queue that waits. -/
  | idle
  /-- In the first loop of `mp_dispatch_lock`, about to call `wakeup_fn`. -/
  | calling
  /-- It has the lock. -/
  | holding
  deriving DecidableEq, Repr

/-- `struct mp_dispatch_queue` with its threads. The last fields record what happened. -/
structure State (α : Type) where
  queue : List (Item α) := []
  /-- `mp_dispatch_set_wakeup_fn` was called. -/
  hasWakeupFn : Bool
  wait : Int := 0
  interrupted : Bool := false
  inProcess : Bool := false
  locked : Bool := false
  lockRequests : Nat := 0
  /-- `locked_explicit`, with its thread. -/
  lockedExplicit : Option Nat := none
  target : Place TargetWait (TargetSpot α) := .at .outside
  client : Nat → Place ClientWait ClientSpot := fun _ => .at .idle
  /-- The items of `mp_dispatch_run` that are `completed`. -/
  completed : List Nat := []
  /-- How often `mp_dispatch_append` was called. -/
  added : Nat := 0
  /-- The items whose callback was begun, the first one first. -/
  begun : List Nat := []
  cancelled : List Nat := []
  /-- The items that were freed because there was one like them, and that one. -/
  merged : List (Item α × Item α) := []
  /-- An assertion did not hold. -/
  failed : Bool := false

inductive Label (α : Type) where
  /-- Some thread calls `mp_dispatch_enqueue`, or `mp_dispatch_enqueue_notify` if the
      item is to be mergeable. -/
  | enqueue (fn : α) (mergeable : Bool)
  /-- Some thread calls `mp_dispatch_cancel_fn`. -/
  | cancel (fn : α)
  /-- Some thread calls `mp_dispatch_interrupt`. -/
  | interrupt
  /-- Some thread calls `mp_dispatch_adjust_timeout`. -/
  | adjustTimeout (until' : Int)
  /-- The target thread calls `mp_dispatch_queue_process`, which is to wait until `wait`. -/
  | process (wait : Int)
  /-- The callback that the target thread runs returns. -/
  | finish
  /-- The time is over until which the target thread waits. -/
  | timeout
  /-- The target thread is woken though there was no broadcast. -/
  | wakeTarget
  /-- The target thread goes on after it was woken. -/
  | target
  | wakeClient (n : Nat)
  | client (n : Nat)
  /-- The thread `n` calls `mp_dispatch_lock`. -/
  | lock (n : Nat)
  | unlock (n : Nat)
  /-- The thread `n` calls `mp_dispatch_run`. -/
  | run (n : Nat) (fn : α)

namespace State

variable {α : Type}

/-- `failed` after the assertion of `b`. -/
def assert (s : State α) (b : Bool) : Bool := s.failed || !b

/-- `pthread_cond_broadcast`. -/
def broadcast (s : State α) : State α :=
  { s with target := s.target.wake, client := fun n => (s.client n).wake }

def goto (s : State α) (n : Nat) (p : Place ClientWait ClientSpot) : State α :=
  { s with client := Function.update s.client n p }

/-! ## The queue -/

/-- What `item` can be merged into. -/
def mergesInto [DecidableEq α] (item cur : Item α) : Bool :=
  item.mergeable && cur.mergeable && cur.fn = item.fn

/-- `mp_dispatch_append`. -/
def append [DecidableEq α] (s : State α) (item : Item α) : State α :=
  match s.queue.find? (mergesInto item) with
  | some cur => { s with added := s.added + 1, merged := s.merged ++ [(item, cur)] }
  | none =>
    { s.broadcast with
      queue := s.queue ++ [item]
      interrupted := s.interrupted || !s.hasWakeupFn
      added := s.added + 1 }

/-- `mp_dispatch_cancel_fn`. It frees the items, so none may be one of `mp_dispatch_run`. -/
def cancel [DecidableEq α] (s : State α) (fn : α) : Option (State α) :=
  if ∃ item ∈ s.queue, item.fn = fn ∧ item.asynchronous = false then none
  else some { s with
    queue := s.queue.filter (·.fn ≠ fn)
    cancelled := s.cancelled ++ (s.queue.filter (·.fn = fn)).map Item.id }

def interrupt (s : State α) : State α := { s with interrupted := true }.broadcast

def adjustTimeout (s : State α) (until' : Int) : State α :=
  if s.inProcess ∧ until' < s.wait then { s with wait := until' }.broadcast else s

/-! ## The target thread -/

/-- The loop of `mp_dispatch_queue_process`, up to where it gives the mutex away. -/
def loop (s : State α) : State α :=
  if 0 < s.lockRequests then { s with target := .asleep .noRequests }
  else match s.queue with
    | item :: queue =>
      { s with
        queue := queue
        locked := true
        begun := s.begun ++ [item.id]
        target := .at (.running item)
        failed := s.assert !s.locked }
    | [] =>
      if 0 < s.wait ∧ s.interrupted = false then { s with target := .asleep .work }
      else
        { s with
          inProcess := false
          interrupted := false
          target := .at .outside
          failed := s.assert !s.locked }

/-- `mp_dispatch_queue_process` from its start. -/
def process (s : State α) (wait : Int) : State α :=
  let s := { s with wait := wait, inProcess := true, failed := s.assert !s.inProcess }
  (if 0 < s.lockRequests then s.broadcast else s).loop

/-- The callback of the item has returned. -/
def finish (s : State α) (item : Item α) : State α :=
  let s := { s with locked := false, failed := s.assert s.locked }.broadcast
  (if item.asynchronous then s else { s with completed := item.id :: s.completed }).loop

/-! ## Other threads -/

/-- The second loop of `mp_dispatch_lock`, and what follows it. -/
def acquire (s : State α) (n : Nat) : State α :=
  if s.inProcess = false ∨ s.locked then s.goto n (.asleep .unlocked)
  else
    { s with
      locked := true
      lockedExplicit := some n
      failed := s.assert (0 < s.lockRequests && !s.locked && s.lockedExplicit.isNone)
      }.goto n (.at .holding)

/-- The test of the first loop of `mp_dispatch_lock`. -/
def trap (s : State α) (n : Nat) : State α :=
  if s.inProcess then s.acquire n else s.goto n (.at .calling)

/-- The first loop after the call of `wakeup_fn`. -/
def called (s : State α) (n : Nat) : State α :=
  if s.inProcess then s.acquire n else s.goto n (.asleep .inProcess)

/-- `mp_dispatch_lock` from its start. The thread is not the target thread. -/
def lock (s : State α) (n : Nat) : State α :=
  { s with
    lockRequests := s.lockRequests + 1
    failed := s.assert (s.lockedExplicit ≠ some n) }.trap n

def unlock (s : State α) (n : Nat) : State α :=
  { s with
    locked := false
    lockedExplicit := none
    lockRequests := s.lockRequests - 1
    failed := s.assert (s.locked && s.lockedExplicit == some n) }.broadcast.goto n (.at .idle)

/-- `mp_dispatch_run` up to its loop. -/
def run [DecidableEq α] (s : State α) (n : Nat) (fn : α) : State α :=
  (s.append { id := s.added, fn := fn, asynchronous := false }).goto n
    (.woken (.completed s.added))

/-- The loop of `mp_dispatch_run`. -/
def await (s : State α) (n id : Nat) : State α :=
  s.goto n (if id ∈ s.completed then .at .idle else .asleep (.completed id))

/-- The thread `n` gets the mutex and goes on. -/
def next (s : State α) (n : Nat) : Option (State α) :=
  match s.client n with
  | .at .calling => some (s.called n)
  | .woken .inProcess => some (s.trap n)
  | .woken .unlocked => some (s.acquire n)
  | .woken (.completed id) => some (s.await n id)
  | .at .idle | .at .holding | .asleep _ => none

end State

def step {α : Type} [DecidableEq α] (s : State α) : Label α → Option (State α)
  | .enqueue fn mergeable =>
    some (s.append { id := s.added, fn := fn, asynchronous := true, mergeable := mergeable })
  | .cancel fn => s.cancel fn
  | .interrupt => some s.interrupt
  | .adjustTimeout until' => some (s.adjustTimeout until')
  | .process wait => if s.target = .at .outside then some (s.process wait) else none
  | .finish =>
    match s.target with
    | .at (.running item) => some (s.finish item)
    | _ => none
  | .timeout => if s.target = .asleep .work then some { s with wait := 0 }.loop else none
  | .wakeTarget =>
    match s.target with
    | .asleep _ => some { s with target := s.target.wake }
    | _ => none
  | .target =>
    match s.target with
    | .woken _ => some s.loop
    | _ => none
  | .wakeClient n =>
    match s.client n with
    | .asleep _ => some (s.goto n (s.client n).wake)
    | _ => none
  | .client n => s.next n
  | .lock n => if s.client n = .at .idle then some (s.lock n) else none
  | .unlock n => if s.client n = .at .holding then some (s.unlock n) else none
  | .run n fn => if s.client n = .at .idle then some (s.run n fn) else none

/-- The queue from `mp_dispatch_create` on. -/
def dispatch (α : Type) [DecidableEq α] : Machine (State α) (Label α) where
  init s := ∃ hasWakeupFn, s = { hasWakeupFn := hasWakeupFn }
  step := step

end Dispatch
