-- SUMMARY: The observed properties of an mpv client as `client.c` keeps them: changes, the reading of values by the core, and the events that are generated for them, as a machine.
import KitPlayerCore.Transition.Machine
import KitPlayerCore.Transition.Monitor

/-!
# Observed properties

A change of a property only raises a counter. The core reads the property later, without the lock
of the client, and stores the value if it is another one. The client is given the value when it
waits for an event and there is nothing else for it. It is given nothing before the core is
initialized, though the core reads properties before that too.

A step is one region under `ctx->lock`. A client without a ring and without log messages is enough
here: that it finds something else to return is a step of its own, and so is it whether a thread
in `mpv_wait_async_requests` has replies to wait for.
-/

namespace Observe

open Transition

/-- `mp_get_property_id` and `mp_get_property_event_mask`. -/
structure Table where
  id : Nat → Nat
  eventMask : Nat → BitVec 64

/-- `struct observe_property`. The format is `none` for `MPV_FORMAT_NONE`, and the value is `none`
    unless `value_valid`. -/
structure ObserveProperty (φ V : Type) where
  name : Nat
  replyId : UInt64
  format : Option φ
  refcount : Nat
  changeTs : Nat
  valueTs : Nat
  value : Option V
  valueRetTs : Nat
  deriving DecidableEq, Repr

/-- Where the core is while it reads a property without the lock. -/
structure Reading (V : Type) where
  index : Nat
  /-- `cur_ts` of `send_client_property_changes`. -/
  curTs : Nat
  prop : Nat
  /-- What `getproperty_fn` has found, if it has returned. -/
  found : Option (Option V)
  deriving DecidableEq, Repr

/-- Where a thread is that waits for events, or for replies. -/
inductive Spot where
  /-- Not in `mpv_wait_event`, or in `mpv_wait_async_requests`. -/
  | outside
  /-- It is about to look for something to return, or whether replies are due. -/
  | looking
  /-- In `wait_wakeup`, about to lock `wakeup_lock`. -/
  | waking
  deriving DecidableEq, Repr

/-- `struct mpv_handle`. An observed property is a cell of the heap, and `properties` has their
    addresses. -/
structure State (φ V : Type) where
  heap : Nat → ObserveProperty φ V
  /-- How many cells were allocated. -/
  allocated : Nat := 0
  properties : List Nat := []
  hasPendingProperties : Bool := false
  newPropertyEvents : Bool := false
  curPropertyIndex : Nat := 0
  propertyEventMasks : BitVec 64 := 0
  propertiesChangeTs : Nat := 0
  curProperty : Option Nat := none
  asyncCounter : Nat := 0
  destroying : Bool := false
  /-- `mpctx->initialized`. -/
  initialized : Bool := false
  needWakeup : Bool := false
  waiter : Place Unit Spot := .at .outside
  /-- The threads that may call `mpv_wait_async_requests`. -/
  settlers : Nat → Place Unit Spot := fun _ => .at .outside
  /-- What the core reads, while it is in `getproperty_fn`. -/
  reading : Option (Reading V) := none
  /-- The handle was freed. -/
  gone : Bool := false
  /-- What the properties are. -/
  world : Nat → φ → Option V
  /-- What the property in a cell has been since its last change that was announced, or since it
      is observed. -/
  since : Nat → List (φ → Option V) := fun _ => []
  /-- The client has looked for an event last before the core was initialized. -/
  lookedEarly : Bool := false
  /-- The values that the client was given for the property in a cell. -/
  told : Nat → List (Option V) := fun _ => []
  /-- An assertion did not hold. -/
  failed : Bool := false

inductive Label (φ V : Type) where
  /-- The core is initialized. -/
  | mpInitialize
  /-- A property changes, and nobody is told. -/
  | drift (name : Nat) (x : φ → Option V)
  /-- `mp_client_property_change` for the property with the number `id`. -/
  | change (id : Nat)
  /-- `send_event` of an event with the mask `mask`. -/
  | event (mask : BitVec 64)
  /-- Some thread calls `mpv_observe_property`. -/
  | observe (name : Nat) (userdata : UInt64) (format : Option φ)
  /-- Some thread calls `mpv_unobserve_property`. -/
  | unobserve (userdata : UInt64)
  /-- The core starts on `send_client_property_changes`. -/
  | send
  /-- `getproperty_fn` reads the property. -/
  | read
  /-- The core has the lock again. -/
  | relock
  /-- The client calls `mpv_wait_event`. -/
  | wait
  /-- The thread in `mpv_wait_event` goes on. -/
  | waiter
  /-- It returns with something else than a property, or with nothing. -/
  | other
  /-- It is woken though there was no broadcast. -/
  | wakeWaiter
  /-- Some thread calls `mpv_wait_async_requests`. `reserved` says that replies are due. -/
  | settle (n : Nat) (reserved : Bool)
  /-- It goes on. -/
  | settler (n : Nat) (reserved : Bool)
  /-- Its time is over, which is some months. -/
  | settlerTimeout (n : Nat)
  /-- It is woken though there was no broadcast. -/
  | wakeSettler (n : Nat)
  /-- The client calls `mp_destroy_client`. -/
  | destroy
  /-- Its requests are served, and it frees the handle. -/
  | free

namespace State

variable {φ V : Type}

def modify (s : State φ V) (p : Nat) (f : ObserveProperty φ V → ObserveProperty φ V) :
    State φ V :=
  { s with heap := Function.update s.heap p (f (s.heap p)) }

/-- `wakeup_client`. -/
def wakeupClient (s : State φ V) : State φ V :=
  if s.needWakeup then s
  else
    { s with
      needWakeup := true
      waiter := s.waiter.wake
      settlers := fun n => (s.settlers n).wake }

def ref (s : State φ V) (p : Nat) : State φ V :=
  s.modify p fun x => { x with refcount := x.refcount + 1 }

/-- `prop_unref`. -/
def unref (s : State φ V) (p : Nat) : State φ V :=
  { s with failed := s.failed || !(0 < (s.heap p).refcount : Bool) }.modify p
    fun x => { x with refcount := x.refcount - 1 }

/-! ## Changes -/

/-- The properties for which `changed` holds are announced to have changed. -/
def announce (s : State φ V) (changed : Nat → Bool) : State φ V :=
  { s with
    heap := fun p =>
      let x := s.heap p
      if p ∈ s.properties ∧ changed x.name then { x with changeTs := x.changeTs + 1 } else x
    hasPendingProperties := s.hasPendingProperties ||
      s.properties.any fun p => changed (s.heap p).name
    since := fun p =>
      let x := s.heap p
      if p ∈ s.properties ∧ changed x.name then [s.world x.name] else s.since p }

/-- `notify_property_events`, where `send_event` calls it. -/
def event (s : State φ V) (table : Table) (mask : BitVec 64) : State φ V :=
  if s.propertyEventMasks &&& mask = 0 then s
  else s.announce fun name => table.eventMask name &&& mask ≠ 0

def drift (s : State φ V) (name : Nat) (x : φ → Option V) : State φ V :=
  { s with
    world := Function.update s.world name x
    since := fun p => if (s.heap p).name = name then s.since p ++ [x] else s.since p }

/-! ## Observing -/

/-- `mpv_observe_property`. -/
def observe (s : State φ V) (table : Table) (name : Nat) (userdata : UInt64) (format : Option φ) :
    State φ V :=
  { s with
    heap := Function.update s.heap s.allocated
      { name, replyId := userdata, format, refcount := 1, changeTs := 1, valueTs := 0,
        value := none, valueRetTs := 0 }
    allocated := s.allocated + 1
    propertiesChangeTs := s.propertiesChangeTs + 1
    properties := s.properties ++ [s.allocated]
    propertyEventMasks := s.propertyEventMasks ||| table.eventMask name
    newPropertyEvents := true
    curPropertyIndex := 0
    hasPendingProperties := true
    since := Function.update s.since s.allocated [s.world name] }

/-- The loop of `mpv_unobserve_property`, and the one of `mp_destroy_client`, over what they
    remove. -/
def unrefAll (s : State φ V) (ps : List Nat) : State φ V := ps.foldl unref s

/-- `mpv_unobserve_property`. -/
def unobserve (s : State φ V) (userdata : UInt64) : State φ V :=
  let removed := s.properties.reverse.filter fun p => (s.heap p).replyId = userdata
  if removed = [] then s
  else
    { s.unrefAll removed with
      properties := s.properties.filter fun p => (s.heap p).replyId ≠ userdata
      propertiesChangeTs := s.propertiesChangeTs + removed.length
      curPropertyIndex := 0 }

/-! ## The core -/

/-- `send_client_property_changes` after its loop. -/
def sent (s : State φ V) : State φ V :=
  if s.destroying || s.newPropertyEvents then s.wakeupClient else s

/-- Its loop over the properties `ps`, the first of which has the index `n`, up to where it gives
    the lock away. -/
def walk (s : State φ V) (n : Nat) : List Nat → State φ V
  | [] => s.sent
  | p :: ps =>
    let x := s.heap p
    if x.valueTs = x.changeTs then walk s (n + 1) ps
    else match x.format with
      | some _ =>
        { s.ref p with
          asyncCounter := s.asyncCounter + 1
          reading := some ⟨n, s.propertiesChangeTs, p, none⟩ }
      | none =>
        walk ({ s with newPropertyEvents := true }.modify p
          fun x => { x with valueTs := x.changeTs }) (n + 1) ps

/-- `send_client_property_changes`. -/
def send (s : State φ V) : State φ V :=
  { s with hasPendingProperties := false }.walk 0 s.properties

/-- `getproperty_fn`, for a format that is not `MPV_FORMAT_NONE`. -/
def read (s : State φ V) (r : Reading V) : State φ V :=
  let x := s.heap r.prop
  { s with reading := some { r with found := some (x.format.bind (s.world x.name)) } }

/-- The value is another one than before. -/
def changed [DecidableEq V] (x : ObserveProperty φ V) (val : Option V) : Bool :=
  x.valueTs = 0 ||
    match x.value, val with
    | some v, some w => v ≠ w
    | v, w => v.isSome ≠ w.isSome

/-- What is stored for a property that was read. -/
def store [DecidableEq V] (x : ObserveProperty φ V) (val : Option V) : ObserveProperty φ V :=
  { x with
    value := if changed x val then val else val.bind fun _ => x.value
    valueRetTs := if !changed x val && x.valueRetTs = x.valueTs then x.changeTs else x.valueRetTs
    valueTs := x.changeTs }

/-- The loop goes on after the lock was taken again. -/
def relock [DecidableEq V] (s : State φ V) (r : Reading V) (val : Option V) : State φ V :=
  let s := { s with asyncCounter := s.asyncCounter - 1, reading := none }.unref r.prop
  if r.curTs ≠ s.propertiesChangeTs ∨ s.destroying then
    { s with hasPendingProperties := true }.sent
  else
    let x := s.heap r.prop
    let s := { s with
      failed := s.failed || !(0 < x.refcount : Bool)
      newPropertyEvents := s.newPropertyEvents || changed x val }
    (s.modify r.prop fun x => store x val).walk (r.index + 1) (s.properties.drop (r.index + 1))

/-! ## The client -/

/-- The event for the property is generated. -/
def give (s : State φ V) (p : Nat) : State φ V :=
  let s := s.modify p fun x => { x with valueRetTs := x.valueTs }
  let s := { s.curProperty.elim s s.unref with curProperty := some p }.ref p
  { s with told := Function.update s.told p (s.told p ++ [(s.heap p).value]) }

/-- The loop of `gen_property_change_event` over the properties `ps`, which are those from
    `cur_property_index` on. -/
def seek (s : State φ V) : List Nat → State φ V × Bool
  | [] => (s, false)
  | p :: ps =>
    let s := { s with curPropertyIndex := s.curPropertyIndex + 1 }
    if (s.heap p).valueRetTs ≠ (s.heap p).valueTs then (s.give p, true) else s.seek ps

/-- `gen_property_change_event`, and whether it has found one. The loop comes to the end of the
    properties at most twice. -/
def genPropertyChangeEvent (s : State φ V) : State φ V × Bool :=
  if s.initialized then
    let (s, found) := s.seek (s.properties.drop s.curPropertyIndex)
    if found then (s, true)
    else if s.newPropertyEvents ∧ s.properties ≠ [] then
      { s with newPropertyEvents := false, curPropertyIndex := 0 }.seek s.properties
    else (s, false)
  else (s, false)

/-- The loop of `mpv_wait_event` up to where it gives `ctx->lock` away. -/
def look (s : State φ V) : State φ V :=
  let early := !s.initialized
  let (s, found) := s.genPropertyChangeEvent
  { s with waiter := .at (if found then .outside else .waking), lookedEarly := early }

/-- The region of `wait_wakeup` under `wakeup_lock`. -/
def waitWakeup (s : State φ V) : State φ V :=
  if s.needWakeup then { s with needWakeup := false, waiter := .at .looking }
  else { s with waiter := .asleep () }

def gotoSettler (s : State φ V) (n : Nat) (p : Place Unit Spot) : State φ V :=
  { s with settlers := Function.update s.settlers n p }

/-- The test of the loop of `mpv_wait_async_requests`. -/
def settle (s : State φ V) (n : Nat) (reserved : Bool) : State φ V :=
  s.gotoSettler n (.at (if reserved ∨ s.asyncCounter ≠ 0 then .waking else .outside))

/-- `mpv_wait_async_requests` goes on. -/
def settler (s : State φ V) (n : Nat) (reserved : Bool) : Option (State φ V) :=
  match s.settlers n with
  | .at .waking =>
    some (if s.needWakeup then { s with needWakeup := false }.gotoSettler n (.at .looking)
      else s.gotoSettler n (.asleep ()))
  | .at .looking => some (s.settle n reserved)
  | .woken () => some ({ s with needWakeup := false }.gotoSettler n (.at .looking))
  | .at .outside | .asleep () => none

/-- `mp_destroy_client`, up to where it waits. -/
def destroy (s : State φ V) : State φ V :=
  let s := { s.unrefAll s.properties with
    destroying := true
    properties := []
    propertiesChangeTs := s.propertiesChangeTs + 1 }
  { s.curProperty.elim s s.unref with curProperty := none }

end State

def step {φ V : Type} [DecidableEq V] (table : Table) (s : State φ V) :
    Label φ V → Option (State φ V)
  | .mpInitialize => some { s with initialized := true }
  | .drift name x => some (s.drift name x)
  | .change id => if s.gone then none else some (s.announce fun name => table.id name = id)
  | .event mask => if s.gone then none else some (s.event table mask)
  | .observe name userdata format =>
    if s.destroying then none else some (s.observe table name userdata format)
  | .unobserve userdata => if s.destroying then none else some (s.unobserve userdata)
  | .send =>
    if !s.gone ∧ s.hasPendingProperties ∧ s.reading = none then some s.send else none
  | .read =>
    match s.reading with
    | some r => if r.found = none then some (s.read r) else none
    | none => none
  | .relock =>
    match s.reading with
    | some ⟨index, curTs, prop, some val⟩ => some (s.relock ⟨index, curTs, prop, some val⟩ val)
    | _ => none
  | .wait => if !s.destroying ∧ s.waiter = .at .outside then some s.look else none
  | .waiter =>
    match s.waiter with
    | .at .looking => some s.look
    | .at .waking => some s.waitWakeup
    | .woken () => some { s with needWakeup := false, waiter := .at .looking }
    | .at .outside | .asleep () => none
  | .other =>
    match s.waiter with
    | .at .outside => none
    | _ => some { s with waiter := .at .outside }
  | .wakeWaiter =>
    match s.waiter with
    | .asleep () => some { s with waiter := s.waiter.wake }
    | _ => none
  | .settle n reserved =>
    if !s.gone ∧ s.settlers n = .at .outside then some (s.settle n reserved) else none
  | .settler n reserved => s.settler n reserved
  | .settlerTimeout n =>
    match s.settlers n with
    | .asleep () | .woken () => some (s.gotoSettler n (.at .looking))
    | .at _ => none
  | .wakeSettler n =>
    match s.settlers n with
    | .asleep () => some (s.gotoSettler n (.woken ()))
    | _ => none
  | .destroy => if !s.destroying ∧ s.waiter = .at .outside then some s.destroy else none
  | .free =>
    if s.destroying ∧ !s.gone ∧ s.asyncCounter = 0 then some { s with gone := true } else none

/-- A client from its creation on, where the heap may hold anything. -/
def observing (φ V : Type) [DecidableEq V] (table : Table) : Machine (State φ V) (Label φ V) where
  init s := ∃ heap world, s = { heap, world }
  step := step table

end Observe
