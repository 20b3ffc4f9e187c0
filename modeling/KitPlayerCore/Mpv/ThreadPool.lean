-- SUMMARY: The thread pool of `misc/thread_pool.c` as a machine: workers that take work, sleep, time out and leave, callers that add work, and the destructor.
import KitPlayerCore.Transition.Machine
import KitPlayerCore.Transition.Monitor

/-!
# The thread pool

mpv loads external files and runs its slow commands on the workers of a pool. A step is one region
under `pool->lock`.
-/

namespace ThreadPool

open Transition

inductive Spot where
  /-- About to look for work: it was just created. -/
  | ready
  | running (item : Nat)
  /-- It has ended, or was not created yet. -/
  | ended
  deriving DecidableEq, Repr

/-- Where a worker is. It sleeps with a timeout or without one. -/
abbrev Worker := Place Bool Spot

/-- `struct mp_thread_pool`, its workers, and what has become of the work that it has accepted.
    Items are numbered in the order in which they were accepted. -/
structure State where
  minThreads : Nat
  maxThreads : Nat
  threads : List Nat := []
  busyThreads : Nat := 0
  terminate : Bool := false
  work : List Nat := []
  /-- How many threads were created. -/
  spawned : Nat := 0
  worker : Nat → Worker := fun _ => .at .ended
  /-- What the destructor has still to join. -/
  joining : List Nat := []
  /-- The destructor has returned. -/
  gone : Bool := false
  accepted : Nat := 0
  started : List Nat := []
  finished : List Nat := []
  /-- Some work was queued though a thread was missing that could not be created. -/
  short : Bool := false
  /-- An assertion did not hold. -/
  failed : Bool := false

inductive Label where
  /-- Some thread calls `mp_thread_pool_queue`, or `mp_thread_pool_run` unless `allowQueue`. A
      thread can be created or not. The signal wakes the given worker, or none if none sleeps. -/
  | add (allowQueue spawns : Bool) (woken : Option Nat)
  /-- A worker goes on. -/
  | worker (i : Nat)
  | timeout (i : Nat)
  /-- A worker is woken though there was no signal. -/
  | wakeWorker (i : Nat)
  /-- `thread_pool_dtor` begins. -/
  | destroy
  /-- It returns from the next `pthread_join`. -/
  | join
  /-- It is past its last assertion. -/
  | free
  deriving DecidableEq, Repr

namespace State

def goto (s : State) (i : Nat) (w : Worker) : State :=
  { s with worker := Function.update s.worker i w }

def addThread (s : State) : State :=
  { s with threads := s.threads ++ [s.spawned], spawned := s.spawned + 1 }.goto s.spawned
    (.at .ready)

/-- `pthread_cond_signal`. -/
def signal (s : State) : Option Nat → State
  | some i => s.goto i (s.worker i).wake
  | none => s

/-- The worker is one that the signal may wake. -/
def Signals (s : State) : Option Nat → Prop
  | some i => (s.worker i).isAsleep
  | none => ∀ i < s.spawned, (s.worker i).isAsleep = false

instance (s : State) : DecidablePred s.Signals
  | some _ => inferInstanceAs (Decidable (_ = true))
  | none => inferInstanceAs (Decidable (∀ i < s.spawned, _))

/-- There are not enough threads to process all at once, but there may be more. -/
def Lacks (s : State) : Prop :=
  s.busyThreads + s.work.length + 1 > s.threads.length ∧ s.threads.length < s.maxThreads

instance (s : State) : Decidable s.Lacks := inferInstanceAs (Decidable (_ ∧ _))

/-- Work is appended, and some worker is told. -/
def insert (s : State) (woken : Option Nat) : State :=
  { s with work := s.accepted :: s.work, accepted := s.accepted + 1 }.signal woken

/-- `thread_pool_add`. -/
def add (s : State) (allowQueue spawns : Bool) (woken : Option Nat) : State :=
  if s.Lacks then
    if spawns then s.addThread.insert woken
    else if allowQueue ∧ 0 < s.threads.length then { s with short := true }.insert woken
    else s
  else s.insert woken

/-- `worker_thread` after its loop. -/
def leave (s : State) (i : Nat) : State :=
  if s.terminate then s.goto i (.at .ended)
  else { s with
    threads := s.threads.erase i
    failed := s.failed || !(i ∈ s.threads : Bool) }.goto i (.at .ended)

/-- The loop of `worker_thread` up to where it gives the lock away. -/
def look (s : State) (i : Nat) (gotTimeout : Bool) : State :=
  match s.work.getLast? with
  | some item =>
    { s with
      work := s.work.dropLast
      busyThreads := s.busyThreads + 1
      started := s.started ++ [item] }.goto i (.at (.running item))
  | none =>
    if gotTimeout || s.terminate then s.leave i
    else s.goto i (.asleep (s.minThreads < s.threads.length))

/-- The work is done. -/
def finish (s : State) (i item : Nat) : State :=
  { s with busyThreads := s.busyThreads - 1, finished := s.finished ++ [item] }.look i false

/-- `thread_pool_dtor`, up to where it joins the threads. -/
def destroy (s : State) : State :=
  { s with
    terminate := true
    worker := fun i => (s.worker i).wake
    joining := s.threads
    threads := [] }

end State

def step (s : State) : Label → Option State
  | .add allowQueue spawns woken =>
    -- Calls do not overlap with the destruction.
    if !s.terminate ∧ s.Signals woken then some (s.add allowQueue spawns woken) else none
  | .worker i =>
    match s.worker i with
    | .at .ready | .woken _ => some (s.look i false)
    | .at (.running item) => some (s.finish i item)
    | .at .ended | .asleep _ => none
  | .timeout i =>
    match s.worker i with
    | .asleep true => some (s.look i (s.minThreads < s.threads.length))
    | _ => none
  | .wakeWorker i =>
    match s.worker i with
    | .asleep _ => some (s.goto i (s.worker i).wake)
    | _ => none
  | .destroy => if s.terminate then none else some s.destroy
  | .join =>
    match s.joining with
    | t :: ts => if s.worker t = .at .ended then some { s with joining := ts } else none
    | [] => none
  | .free =>
    if s.terminate ∧ s.joining = [] ∧ !s.gone then
      some { s with gone := true, failed := s.failed || s.work ≠ [] || s.threads ≠ [] }
    else none

/-- `mp_thread_pool_create`, if the threads could be created. Else it frees the pool and returns
    `NULL`, and there is nothing to say about it. -/
def State.create (initThreads minThreads maxThreads : Nat) : State :=
  { minThreads, maxThreads
    threads := List.range initThreads
    spawned := initThreads
    worker := fun i => .at (if i < initThreads then .ready else .ended) }

def pool : Machine State Label where
  init s := ∃ init min max, init ≤ min ∧ min ≤ max ∧ 0 < max ∧ s = .create init min max
  step := step

end ThreadPool
