-- SUMMARY: The events of an mpv client handle as `client.c` keeps them: the ring with its reserved entries, the mask, the overflow, and the wait for an event, as a machine.
import KitPlayerCore.Mpv.LogBuffer
import KitPlayerCore.Mpv.EventQueue
import KitPlayerCore.Transition.Monitor

/-!
# The events of a client

Any thread may send an event to a client, and the core sends one reply to each request that
was accepted. One thread at a time calls `mpv_wait_event`, and any number of other threads may
be in `mpv_wait_async_requests`, which waits for the same wakeups.

A step is one region under `ctx->lock`, or under `wakeup_lock` where `wait_wakeup` takes that
alone. `wakeup_client` is called at the end of its region, and nobody can see the rest of the
region before.
-/

namespace ClientEvents

open Container Mpv Transition

/-- `struct mpv_event`. -/
structure Event (δ : Type) where
  eventId : Fin 64
  error : Int := 0
  replyUserdata : UInt64 := 0
  data : Option δ := none
  deriving DecidableEq, Repr

/-- `MPV_EVENT_SHUTDOWN`. -/
def shutdown : Fin 64 := 1

/-- `MPV_EVENT_TICK`. -/
def tick : Fin 64 := 14

/-- `INTERNAL_EVENT_BASE`. The events below it are those of `event_table`. -/
def internalEventBase : Nat := 26

/-- `MPV_EVENT_GET_PROPERTY_REPLY`, `MPV_EVENT_SET_PROPERTY_REPLY`, `MPV_EVENT_COMMAND_REPLY`. -/
def isReply (eventId : Fin 64) : Bool := eventId = 3 ∨ eventId = 4 ∨ eventId = 5

/-- `1ULL << event_id`. -/
def bit (eventId : Fin 64) : BitVec 64 := 1#64 <<< eventId.val

/-- What `mpv_wait_event` has returned, if it was not `MPV_EVENT_NONE`. -/
inductive Returned (δ : Type) where
  /-- `MPV_EVENT_QUEUE_OVERFLOW`. -/
  | overflow
  | event (e : Event δ)
  /-- `MPV_EVENT_LOG_MESSAGE`. -/
  | log (entry : LogEntry)
  deriving DecidableEq, Repr

/-- Where the thread is that waits for events. -/
inductive WaitSpot where
  /-- Not in `mpv_wait_event`. -/
  | outside
  /-- In `wait_wakeup`, about to lock `wakeup_lock`. `expired` says that `deadline` is 0. -/
  | waking (expired : Bool)
  /-- `wait_wakeup` is about to return 0. -/
  | looking (expired : Bool)
  /-- `wait_wakeup` is about to return `ETIMEDOUT`. -/
  | leaving
  deriving DecidableEq, Repr

/-- Where a thread is that waits for the replies. -/
inductive SettleSpot where
  /-- Not in `mpv_wait_async_requests`. -/
  | outside
  /-- In `wait_wakeup`, about to lock `wakeup_lock`. -/
  | waking
  /-- `wait_wakeup` is about to return. -/
  | looking
  deriving DecidableEq, Repr

/-- An event that was written to the ring. -/
structure Written (δ : Type) where
  event : Event δ
  /-- How often the queue had choked before. -/
  gaps : Nat
  /-- `choked` was set. -/
  choked : Bool
  deriving DecidableEq, Repr

/-- How many overflows the client is told of before the event. -/
def Written.stamp {δ : Type} (w : Written δ) : Nat := w.gaps - w.choked.toNat

/-- `struct mpv_handle`. The last fields record what happened. -/
structure State (δ : Type) (size : Nat) where
  events : RingBuffer (Event δ) size
  reservedEvents : Nat := 0
  eventMask : BitVec 64
  choked : Bool := false
  queuedWakeup : Bool := false
  messages : Option LogBuffer := none
  messagesLevel : Option LogLevel := some .fatal
  needWakeup : Bool := false
  /-- The thread sleeps in `pthread_cond_timedwait`, whose deadline may be 0. -/
  waiter : Place Bool WaitSpot := .at .outside
  /-- The threads that may call `mpv_wait_async_requests`. -/
  settlers : Nat → Place Unit SettleSpot := fun _ => .at .outside
  /-- How often `wakeup_cb` was called. -/
  callbacks : Nat := 0
  /-- The requests that wait for their reply. -/
  outstanding : List UInt64 := []
  /-- The requests that were accepted. -/
  requested : List UInt64 := []
  /-- The events that `send_event` was called with and that the mask has let through. -/
  passed : List (Event δ) := []
  /-- The events that were written to the ring. -/
  accepted : List (Written δ) := []
  /-- How often the queue has choked. -/
  gaps : Nat := 0
  /-- How often the client has asked for `MPV_EVENT_SHUTDOWN`. -/
  shutdownRequests : Nat := 0
  received : List (Returned δ) := []
  /-- An assertion did not hold, or `abort` was called. -/
  failed : Bool := false

inductive Label (δ : Type) where
  /-- Some thread calls `send_event`, with anything but a reply. -/
  | send (e : Event δ)
  /-- Some thread makes an asynchronous request, as `run_async` does. -/
  | request (userdata : UInt64)
  /-- The core replies to a request. -/
  | reply (userdata : UInt64) (e : Event δ)
  /-- Some thread calls `mpv_request_event`. -/
  | requestEvent (event : Nat) (enable : Int)
  /-- Some thread calls `mpv_wakeup`. -/
  | wakeup
  /-- Some thread logs. -/
  | log (terminalLevel : LogLevel) (m : LogMessage)
  /-- Some thread calls `mpv_request_log_messages`. The level is `none` for `no`, and
      `some none` for `terminal-default`. A new buffer may hold anything. -/
  | requestLogMessages (level : Option (Option LogLevel)) (silent : Bool) (garbage : LogMessage)
  /-- The client calls `mpv_wait_event`. -/
  | wait
  /-- The thread in `mpv_wait_event` goes on. -/
  | waiter
  /-- The time is over until which it waits. -/
  | timeout
  /-- It is woken though there was no broadcast. -/
  | wakeWaiter
  /-- Some thread calls `mpv_wait_async_requests`. -/
  | settle (n : Nat)
  /-- It goes on. -/
  | settler (n : Nat)
  /-- Its time is over, which is some months. -/
  | settlerTimeout (n : Nat)
  /-- It is woken though there was no broadcast. -/
  | wakeSettler (n : Nat)

namespace State

variable {δ : Type} {size : Nat}

/-- `wakeup_client`. -/
def wakeupClient (s : State δ size) : State δ size :=
  if s.needWakeup then s
  else
    { s with
      needWakeup := true
      waiter := s.waiter.wake
      settlers := fun n => (s.settlers n).wake
      callbacks := s.callbacks + 1 }

/-- `append_event`, unless it returns -1. -/
def appendEvent (s : State δ size) (e : Event δ) : Option (State δ size) :=
  if h : s.events.count + s.reservedEvents < size then
    let s' := { s with
      events := s.events.push e ((Nat.le_add_right _ _).trans_lt h)
      accepted := s.accepted ++ [{ event := e, gaps := s.gaps, choked := s.choked : Written δ }]
      }.wakeupClient
    some (if e.eventId = shutdown then
      { s' with eventMask := s'.eventMask &&& (s'.eventMask &&& ~~~ bit shutdown) } else s')
  else none

/-- `send_event`. No property is observed, so `notify_property_events` has nothing to do. -/
def sendEvent (s : State δ size) (e : Event δ) : State δ size :=
  if s.eventMask &&& bit e.eventId = 0 then s
  else
    let s' := { s with passed := s.passed ++ [e] }
    if s.choked then s'
    else (s'.appendEvent e).getD { s' with choked := true, gaps := s.gaps + 1 }

/-- `reserve_reply`, called by `run_async`. -/
def reserveReply (s : State δ size) (userdata : UInt64) : State δ size :=
  if s.reservedEvents + s.events.count < size ∧ s.choked = false then
    { s with
      reservedEvents := s.reservedEvents + 1
      outstanding := s.outstanding ++ [userdata]
      requested := s.requested ++ [userdata] }
  else s

/-- `send_reply`. -/
def sendReply (s : State δ size) (userdata : UInt64) (e : Event δ) : State δ size :=
  let s' := { s with
    reservedEvents := s.reservedEvents - 1
    outstanding := s.outstanding.erase userdata
    failed := s.failed || !(0 < s.reservedEvents : Bool) }
  (s'.appendEvent { e with replyUserdata := userdata }).getD { s' with failed := true }

/-- `mpv_request_event`. -/
def requestEvent (s : State δ size) (event : Nat) (enable : Int) : State δ size :=
  if h : event < internalEventBase ∧ 0 ≤ enable ∧ enable ≤ 1 then
    let eventId : Fin 64 := ⟨event, h.1.trans (by decide)⟩
    if eventId = shutdown ∧ enable = 0 then s
    else
      { s with
        eventMask := if enable = 0 then s.eventMask &&& ~~~ bit eventId
          else s.eventMask ||| bit eventId
        shutdownRequests := s.shutdownRequests + if eventId = shutdown then 1 else 0 }
  else s

def mpvWakeup (s : State δ size) : State δ size := { s with queuedWakeup := true }.wakeupClient

/-- `write_msg_to_buffers`, whose `wakeup_cb` is `msg_wakeup`. -/
def log (s : State δ size) (terminalLevel : LogLevel) (m : LogMessage) : State δ size :=
  match s.messages with
  | none => s
  | some buffer =>
    let s' := { s with messages := some (buffer.write terminalLevel m).1 }
    if (buffer.write terminalLevel m).2 then s'.wakeupClient else s'

/-- The size of a buffer that `mpv_request_log_messages` makes. -/
def logCapacity : Option LogLevel → Nat
  | none => 100
  | some level => if LogLevel.v.toNat ≤ level.toNat then 10000 else 1000

theorem logCapacity_pos (level : Option LogLevel) : 0 < logCapacity level := by
  unfold logCapacity
  split
  · decide
  · split <;> decide

/-- `mpv_request_log_messages`. -/
def requestLogMessages (s : State δ size) (level : Option (Option LogLevel)) (silent : Bool)
    (garbage : LogMessage) : State δ size :=
  match level with
  | none => { s with messages := none }.wakeupClient
  | some level =>
    let kept := if level = s.messagesLevel then s.messages else none
    let buffer := kept.getD (.new (logCapacity level) level garbage (logCapacity_pos level))
    { s with
      messages := some { buffer with silent := silent }
      messagesLevel := level }.wakeupClient

/-- `mpv_wait_event` returns. -/
def ret (s : State δ size) (r : List (Returned δ)) : State δ size :=
  { s with queuedWakeup := false, waiter := .at .outside, received := s.received ++ r }

/-- What `gen_log_message_event` finds. -/
def logEntry (s : State δ size) : Option (LogEntry × LogBuffer) := s.messages.bind LogBuffer.read

/-- The loop of `mpv_wait_event` from its start up to where it gives `ctx->lock` away. -/
def look (s : State δ size) (expired : Bool) : State δ size :=
  if s.choked ∧ s.events.count = 0 then { s with choked := false }.ret [.overflow]
  else if h : 0 < s.events.count then
    { s with events := (s.events.pop h).2 }.ret [.event (s.events.pop h).1]
  else match s.logEntry with
    | some (entry, buffer) => { s with messages := some buffer }.ret [.log entry]
    | none => { s with waiter := .at (.waking (expired || s.queuedWakeup)) }

/-- The region of `wait_wakeup` under `wakeup_lock`, up to its wait. -/
def waitWakeup (s : State δ size) (expired : Bool) : State δ size :=
  if s.needWakeup then { s with needWakeup := false, waiter := .at (.looking expired) }
  else { s with waiter := .asleep expired }

def gotoSettler (s : State δ size) (n : Nat) (p : Place Unit SettleSpot) : State δ size :=
  { s with settlers := Function.update s.settlers n p }

/-- The test of the loop of `mpv_wait_async_requests`. No property is observed, so
    `async_counter` is 0. -/
def settle (s : State δ size) (n : Nat) : State δ size :=
  s.gotoSettler n (.at (if s.reservedEvents ≠ 0 then .waking else .outside))

/-- `mpv_wait_async_requests` goes on. -/
def settler (s : State δ size) (n : Nat) : Option (State δ size) :=
  match s.settlers n with
  | .at .waking =>
    some (if s.needWakeup then { s with needWakeup := false }.gotoSettler n (.at .looking)
      else s.gotoSettler n (.asleep ()))
  | .at .looking => some (s.settle n)
  | .woken () => some ({ s with needWakeup := false }.gotoSettler n (.at .looking))
  | .at .outside | .asleep () => none

end State

def step {δ : Type} {size : Nat} (s : State δ size) : Label δ → Option (State δ size)
  | .send e => if isReply e.eventId then none else some (s.sendEvent e)
  | .request userdata => some (s.reserveReply userdata)
  | .reply userdata e =>
    if userdata ∈ s.outstanding ∧ isReply e.eventId then some (s.sendReply userdata e) else none
  | .requestEvent event enable => some (s.requestEvent event enable)
  | .wakeup => some s.mpvWakeup
  | .log terminalLevel m => some (s.log terminalLevel m)
  | .requestLogMessages level silent garbage =>
    some (s.requestLogMessages level silent garbage)
  | .wait => if s.waiter = .at .outside then some (s.look false) else none
  | .waiter =>
    match s.waiter with
    | .at (.waking expired) => some (s.waitWakeup expired)
    | .at (.looking expired) => some (s.look expired)
    | .at .leaving => some (s.ret [])
    -- pthread_cond_timedwait has returned 0
    | .woken expired => some { s with needWakeup := false, waiter := .at (.looking expired) }
    | .at .outside | .asleep _ => none
  | .timeout =>
    match s.waiter with
    | .asleep _ | .woken _ => some { s with waiter := .at .leaving }
    | .at _ => none
  | .wakeWaiter =>
    match s.waiter with
    | .asleep _ => some { s with waiter := s.waiter.wake }
    | _ => none
  | .settle n => if s.settlers n = .at .outside then some (s.settle n) else none
  | .settler n => s.settler n
  | .settlerTimeout n =>
    match s.settlers n with
    | .asleep () | .woken () => some (s.gotoSettler n (.at .looking))
    | .at _ => none
  | .wakeSettler n =>
    match s.settlers n with
    | .asleep () => some (s.gotoSettler n (.woken ()))
    | _ => none

/-- `mp_new_client`, where the ring may hold anything. -/
def State.new {δ : Type} {size : Nat} (garbage : Fin size → Event δ) (h : 0 < size) : State δ size :=
  let s : State δ size :=
    { events := .empty garbage h, eventMask := 1#64 <<< internalEventBase - 1 }
  s.requestEvent tick.val 0

/-- A client from its creation on. -/
def client (δ : Type) (size : Nat) : Machine (State δ size) (Label δ) where
  init s := ∃ garbage h, s = .new garbage h
  step := step

end ClientEvents
