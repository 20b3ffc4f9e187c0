-- SUMMARY: Client handles and the core that they keep alive: creation, `mp_destroy_client`, and the end of the core thread, as a machine.
import KitPlayerCore.Transition.Machine
import Mathlib.Logic.Function.Basic

/-!
# The lifetime of the core

A core lives as long as there is a strong handle. The thread that destroys the last one stops
the core thread, waits for its end and frees the core. Handles may be created and destroyed by
any thread meanwhile, also by the core thread, whose scripts are clients too.

A step is one region under `clients->lock`, or one call of the dispatch queue. What the core
thread reads for a client, and what it runs, comes to its end.
-/

namespace CoreLifetime

open Transition

/-! ## Names -/

/-- A C string without its NUL. Each `Char` is a `char` of C, which is one byte. -/
abbrev Name := List Char

/-- `mp_isalnum`. -/
def isAlnum (c : Char) : Bool :=
  ('a' ≤ c ∧ c ≤ 'z') ∨ ('A' ≤ c ∧ c ≤ 'Z') ∨ ('0' ≤ c ∧ c ≤ '9')

/-- `MAX_CLIENT_NAME`, which includes the NUL. -/
def maxClientName : Nat := 64

/-- `nname` in the `n`-th round of the loop of `mp_new_client`. The number has room behind what
    `snprintf` leaves of the name. -/
def numbered (name : Name) (n : Nat) : Name :=
  ((name.take (maxClientName - 3 - 1)).map fun c => if isAlnum c then c else '_') ++
    if 1 < n then Nat.toDigits 10 n else []

/-- The name that `mp_new_client` gives to a client. -/
def findName (used : List Name) (name : Name) : Option Name :=
  (((List.range' 1 999).map (numbered name)).find? (· ∉ used)).filter (· ≠ [])

/-! ## States -/

/-- A strong or weak `mpv_handle` in the list of clients. -/
structure Client where
  id : Nat
  name : Name
  weak : Bool := false
  deriving DecidableEq, Repr

/-- Where the core thread is. -/
inductive CorePc where
  /-- In `mp_play_files`, or before it. -/
  | playing
  /-- In `mp_shutdown_clients`, at the test of its loop. -/
  | testing
  /-- In `mp_shutdown_clients`, in `mp_wait_events`. -/
  | waiting
  | ended
  deriving DecidableEq, Repr

/-- What became of a handle. From `quitting` on a thread is in `mp_destroy_client`. -/
inductive HandlePc where
  | absent
  | live
  /-- In `mpv_command`, which is to give the command `quit`. -/
  | quitting
  /-- In `mpv_wait_async_requests`. `destroying` is set. -/
  | settling (terminate : Bool)
  /-- Before the region in which the client is removed. -/
  | removing (terminate : Bool)
  /-- In `mp_dispatch_lock`, to set `stop_play`. -/
  | locking
  /-- In `mp_dispatch_run`, to learn which thread is the core thread. -/
  | asking
  /-- About to set `terminate_core_thread`. -/
  | signalling
  /-- In `pthread_join`. -/
  | joining
  /-- In `mp_destroy`. -/
  | destroying
  /-- The call has returned, and has freed the core. -/
  | terminated
  /-- The call has returned. -/
  | gone
  deriving DecidableEq, Repr

/-- `struct mp_client_api` with its threads. -/
structure State where
  clients : List Client := []
  shuttingDown : Bool := false
  /-- `have_terminator`, with the handle whose call it is. -/
  haveTerminator : Option Nat := none
  terminateCoreThread : Bool := false
  outstandingAsync : Nat := 0
  /-- `mpctx->initialized`. -/
  initialized : Bool := false
  /-- `reserved_events` of a handle: how many requests wait for their reply. -/
  reservedEvents : Nat → Nat := fun _ => 0
  /-- The handle for which the core thread reads a property, and whose `async_counter` is 1. -/
  reading : Option Nat := none
  /-- `stop_play` is `PT_QUIT`. -/
  quit : Bool := false
  /-- The core thread is to come out of `mp_wait_events`. -/
  interrupted : Bool := false
  core : CorePc := .playing
  handle : Nat → HandlePc := fun _ => .absent
  /-- How many handles there were. -/
  created : Nat := 0
  /-- How often the core was freed. -/
  freed : Nat := 0
  /-- An assertion did not hold, or `mp_destroy` has found something to wait for. -/
  failed : Bool := false

inductive Label where
  /-- The owner of a handle calls `mpv_create_client`, or the core thread `mp_new_client`. -/
  | create (owner : Option Nat) (name : Option Name)
  /-- `mp_client_set_weak`, which `mpv_create_weak_client` calls for its new handle. -/
  | setWeak (id : Nat)
  /-- The owner of a handle calls `mpv_initialize`. -/
  | mpvInitialize (id : Nat)
  /-- Someone gives the command `quit`. -/
  | quit
  /-- The owner of a handle makes an asynchronous request, which is accepted. -/
  | request (id : Nat)
  /-- The request is run, or what it has started comes to its end, and the reply is sent. -/
  | reply (id : Nat)
  /-- The core thread reads a property that the client observes. -/
  | readProperty (id : Nat)
  /-- It has the lock of the client again. -/
  | propertyRead
  /-- `mpv_destroy`, or `mpv_terminate_destroy` if `terminate` is set. -/
  | destroy (id : Nat) (terminate : Bool)
  /-- The call goes on. -/
  | destroyer (id : Nat)
  /-- A command is run on another thread of the core. -/
  | startAsync
  /-- It has come to its end. -/
  | finishAsync
  /-- There is nothing left to play. -/
  | finishPlaying
  /-- The core thread goes on. -/
  | core
  /-- The core thread comes out of `mp_wait_events`, though it may not have been interrupted. -/
  | timeout
  deriving DecidableEq, Repr

namespace State

def goto (s : State) (id : Nat) (pc : HandlePc) : State :=
  { s with handle := Function.update s.handle id pc }

/-- `mp_new_client`. -/
def newClient (s : State) (name : Option Name) : State :=
  match findName (s.clients.map Client.name) (name.getD "client".toList) with
  | none => s
  | some nname =>
    if s.shuttingDown then s
    else
      { s with
        clients := s.clients ++ [{ id := s.created, name := nname : Client }]
        created := s.created + 1 }.goto s.created .live

def setWeak (s : State) (id : Nat) : State :=
  { s with clients := s.clients.map fun c => if c.id = id then { c with weak := true } else c }

/-- The region of `mp_destroy_client` in which the client is removed. -/
def removeClient (s : State) (id : Nat) (terminate : Bool) : State :=
  let clients := s.clients.eraseP (·.id = id)
  let hasStrongRef := clients.any (!·.weak)
  let terminate := (terminate || !hasStrongRef) && s.haveTerminator.isNone
  { s with
    clients := clients
    haveTerminator := if terminate then some id else s.haveTerminator
    interrupted := true
    failed := s.failed || !s.clients.any (·.id = id) }.goto id
      (if terminate then .locking else .gone)

/-- The test of the loop of `mp_shutdown_clients`. -/
def mustWait (s : State) : Bool :=
  !s.clients.isEmpty || 0 < s.outstandingAsync || !s.terminateCoreThread

/-- `mp_destroy`, with `mp_clients_destroy`. -/
def destroyCore (s : State) : State :=
  { s with
    shuttingDown := true
    freed := s.freed + 1
    failed := s.failed || s.mustWait || !s.clients.isEmpty }

/-- The core thread comes to its dispatch queue. -/
def serves (s : State) : Bool := (s.core = .playing || s.core = .waiting) && s.reading.isNone

/-- `quit` has run. -/
def runQuit (s : State) : State := { s with quit := true, interrupted := true }

/-- The loop of `mpv_wait_async_requests` ends. The last reply wakes the thread up, as does the
    core thread when it has read a property and `destroying` is set. -/
def settled (s : State) (id : Nat) : Bool := s.reservedEvents id = 0 && s.reading ≠ some id

/-- `mp_destroy_client` goes on. -/
def destroyer (s : State) (id : Nat) : Option State :=
  match s.handle id with
  | .quitting =>
    if s.initialized then
      if s.serves then some (s.runQuit.goto id (.settling true)) else none
    else some (s.goto id (.settling true))
  | .settling terminate => if s.settled id then some (s.goto id (.removing terminate)) else none
  | .removing terminate => some (s.removeClient id terminate)
  | .locking => if s.serves then some ({ s with quit := true }.goto id .asking) else none
  | .asking => if s.serves then some (s.goto id .signalling) else none
  | .signalling =>
    some ({ s with terminateCoreThread := true, interrupted := true }.goto id .joining)
  | .joining => if s.core = .ended then some (s.goto id .destroying) else none
  | .destroying => some (s.destroyCore.goto id .terminated)
  | .absent | .live | .terminated | .gone => none

/-- Who calls `mp_new_client` has a handle, or is the core thread. -/
def mayCreate (s : State) : Option Nat → Bool
  | none => s.core = .playing
  | some id => s.handle id = .live

/-- The core thread goes on. -/
def coreThread (s : State) : Option State :=
  if s.reading.isSome then none
  else match s.core with
  | .playing => if s.quit then some { s with core := .testing } else none
  | .testing => some { s with shuttingDown := true, core := if s.mustWait then .waiting else .ended }
  | .waiting => if s.interrupted then some { s with interrupted := false, core := .testing } else none
  | .ended => none

end State

def step (s : State) : Label → Option State
  | .create owner name =>
    if s.mayCreate owner then some (s.newClient name) else none
  | .setWeak id => if s.handle id = .live then some (s.setWeak id) else none
  | .mpvInitialize id =>
    if s.handle id = .live ∧ s.serves then
      some { s with initialized := true, interrupted := true }
    else none
  | .quit =>
    if s.initialized ∧ s.serves ∧ (s.core = .playing ∨ s.clients ≠ []) then some s.runQuit
    else none
  | .request id =>
    if s.handle id = .live ∧ s.initialized then
      some { s with
        reservedEvents := Function.update s.reservedEvents id (s.reservedEvents id + 1) }
    else none
  | .reply id =>
    if 0 < s.reservedEvents id ∧ s.serves then
      some { s with
        reservedEvents := Function.update s.reservedEvents id (s.reservedEvents id - 1) }
    else none
  | .readProperty id =>
    if s.serves ∧ (s.handle id = .live ∨ s.handle id = .quitting) then
      some { s with reading := some id }
    else none
  | .propertyRead =>
    match s.reading with
    | none => none
    | some id =>
      some { s with
        reading := none
        interrupted := s.interrupted || s.handle id ≠ .live && s.handle id ≠ .quitting }
  | .destroy id terminate =>
    if s.handle id = .live then
      some (s.goto id (if terminate then .quitting else .settling false))
    else none
  | .destroyer id => s.destroyer id
  | .startAsync =>
    if s.serves ∧ (s.core = .playing ∨ s.clients ≠ []) then
      some { s with outstandingAsync := s.outstandingAsync + 1 }
    else none
  | .finishAsync =>
    if 0 < s.outstandingAsync ∧ s.serves then
      some { s with
        outstandingAsync := s.outstandingAsync - 1
        interrupted := s.interrupted || (s.outstandingAsync = 1 && s.shuttingDown) }
    else none
  | .finishPlaying =>
    if s.core = .playing ∧ s.reading = none ∧ s.initialized then some { s with core := .testing }
    else none
  | .core => s.coreThread
  | .timeout =>
    if s.reading.isSome then none
    else match s.core with
    | .playing => some { s with interrupted := false }
    | .waiting => some { s with interrupted := false, core := .testing }
    | .testing | .ended => none

/-- A core from `mpv_create` on. -/
def lifetime : Machine State Label where
  init s := s = State.newClient {} (some "main".toList)
  step := step

end CoreLifetime
