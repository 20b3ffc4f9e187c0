-- SUMMARY: That the loop of `readEvents` withstands a delegate that calls the player back, `shutDown` included.
import KitPlayerCore.Core.Effects
import KitPlayerCore.Session.Machine

/-!
# Reentrancy

The delegate is called in the middle of `handleEvent:`, and may call the player from there.
One of these calls may destroy the handle, and with it the memory that mpv keeps the event
in. Here the block of `readEvents` is run by itself, with its accesses to that memory.
-/

namespace Reentrancy

open Core Mpv Transition Program Session

/-! ## The block with its accesses to the event -/

/-- One statement of the block. `event` points to memory of the handle. -/
inductive Stmt where
  | op (op : Op)
  /-- `event->event_id` is read. -/
  | eventId
  /-- `event->data` is read. -/
  | eventData

@[reducible] def Stmt.Res : Stmt → Type
  | .op o => o.Res
  | .eventId => EventId
  | .eventData => EventData

/-- A program that reads the event through the pointer. -/
abbrev Pointing := Program Stmt Stmt.Res

/-- A program that reads no event. -/
@[simp] def lift {α : Type} : Core α → Pointing α
  | .ret a => .ret a
  | .act op k => .act (.op op) fun r => lift (k r)

@[simp] def eventId : Pointing EventId := perform Stmt.eventId

@[simp] def eventData : Pointing EventData := perform Stmt.eventData

def handleEvent : Pointing Unit := do
  match ← eventId with
  | .logMessage =>
    -- the message is printed, and falls through
    let _ ← eventData
    return
  | .fileLoaded => return
  | .playbackRestart =>
    if !(← lift (get .isManualStop)) then
      if !(← lift (get .isLoaded)) then
        lift (set .isLoaded true)
        lift (runCoreEvent .readyToPlay)
  | .endFile =>
    if !(← lift (get .isManualStop)) then
      if !(← lift (get .isLoaded)) then
        lift (set .isError true)
        lift (runCoreEvent .failed)
        return
      lift (runCoreEvent .atItemEnd)
  | .startFile =>
    lift (set .isLoaded false)
    lift (set .isError false)
    lift (set .isManualStop false)
    lift (set .isStopEvent false)
    lift (set .isInitTrack false)
    lift (set .subArray [])
    lift (set .audioArray [])
  | _ =>
    -- the name of the event is printed
    let _ ← eventId
    return

def readEventsPass : Pointing Bool := do
  if (← lift (get .mpv)).isNone then return false
  if ← lift (get .isStopEvent) then return false
  let _ ← lift (call .waitEvent)
  if (← eventId) = .none then return false
  handleEvent
  return true

/-- The event that the memory holds after the operation. -/
@[simp] def remember : (op : Op) → op.Res → Event → Event
  | .call _ .waitEvent, event, _ => event
  | _, _, event => event

/-- Read the event from a copy of the memory. -/
@[simp] def resolve {α : Type} : Pointing α → Event → Core α
  | .ret a, _ => .ret a
  | .act .eventId k, event => resolve (k event.eventId) event
  | .act .eventData k, event => resolve (k event.data) event
  | .act (.op op) k, event => .act op fun r => resolve (k r) (remember op r event)

theorem resolve_handleEvent {α : Type} (a : α) (event : Event) :
    resolve (handleEvent >>= fun _ => .ret a) event =
      Core.handleEvent event >>= fun _ => .ret a := by
  obtain ⟨id, data⟩ := event
  cases id
  case playbackRestart | endFile =>
    refine congrArg (act _) (funext fun isManualStop => ?_)
    cases isManualStop with
    | true => rfl
    | false => exact congrArg (act _) (funext fun isLoaded => by cases isLoaded <;> rfl)
  all_goals rfl

/-- The block is the one of `readEvents`. -/
theorem resolve_readEventsPass (event : Event) :
    resolve readEventsPass event = Core.readEventsPass := by
  refine congrArg (act _) (funext fun h => ?_)
  cases h with
  | none => rfl
  | some h =>
    refine congrArg (act _) (funext fun isStopEvent => ?_)
    cases isStopEvent with
    | true => rfl
    | false =>
      refine congrArg (act _) (funext fun h => congrArg (act _) (funext fun event => ?_))
      change resolve (if event.eventId = .none then .ret false else
          handleEvent >>= fun _ => .ret true) event =
        if event.eventId = .none then .ret false else Core.handleEvent event >>= fun _ => .ret true
      split
      · rfl
      · exact resolve_handleEvent true event

/-! ## Running it alone -/

/-- The calls that the delegate may make. -/
def Reentrant : Call → Prop
  | .shutDown | .stop | .play | .pause | .setter _ | .getter _ => True
  | _ => False

/-- What the outside of the block decides. What the delegate calls may depend on all that
    happened before, so that every delegate makes one of these sequences of calls. -/
structure Env where
  /-- What the operations are answered, one after the other. -/
  answer : Nat → Answer
  /-- The events that mpv has queued, in order, and `MPV_EVENT_NONE` where there are none. -/
  event : Nat → Event
  /-- The calls that the delegate makes for each message. -/
  delegate : Nat → List { c : Call // Reentrant c }

/-- A session, and how many operations were performed in it. -/
structure Clocked where
  session : Session.State
  time : Nat := 0

structure State extends Clocked where
  /-- How many messages the delegate was sent. -/
  messages : Nat := 0
  /-- How many events mpv has given. -/
  given : Nat := 0
  /-- The memory of the event, and the handle that owns it. -/
  event : Event := ⟨.none, .none⟩
  owner : Option Handle := none
  /-- The memory was read when its owner had been destroyed. -/
  stale : Bool := false

/-- Perform an operation on the queue. A lock that is held blocks for ever. -/
def Clocked.perform (s : Clocked) (a : Answer) (op : Op) : Option (op.Res × Clocked) :=
  (s.session.perform .queue a op).map fun r => (r.1, ⟨r.2, s.time + 1⟩)

/-- Perform an operation of a method that the delegate calls. -/
def Env.exec (env : Env) (op : Op) (s : Clocked) : Option (op.Res × Clocked) :=
  s.perform (env.answer s.time) op

/-- The delegate calls the methods one after the other. -/
def Env.calls (env : Env) : List { c : Call // Reentrant c } → Clocked → Option Clocked
  | [], s => some s
  | c :: cs, s =>
    let called := { s with session := { s.session with called := s.session.called ++ [c.1] } }
    (c.1.body.attempt env.exec called).bind fun r => env.calls cs r.2

/-- The event is read. -/
def State.touch (s : State) : State :=
  { s with stale := s.stale || decide (∃ h ∈ s.owner, h ∈ s.session.destroyed) }

def Env.step (env : Env) : (x : Stmt) → State → Option (x.Res × State)
  | .eventId, s => some (s.event.eventId, s.touch)
  | .eventData, s => some (s.event.data, s.touch)
  | .op .inDelegate, s =>
    (env.calls (env.delegate s.messages) s.toClocked).map fun t =>
      ((), { s with toClocked := t, messages := s.messages + 1 })
  | .op (.call h .waitEvent), s =>
    (s.perform { env.answer s.time with event := env.event s.given } (.call h .waitEvent)).map
      fun r => (r.1, { s with toClocked := r.2, given := s.given + 1, event := r.1, owner := h })
  | .op o, s => (s.perform (env.answer s.time) o).map fun r => (r.1, { s with toClocked := r.2 })

/-- The block of `readEvents` after at most `n` passes of its loop, and whether it is to make
    another one. -/
def Env.readEvents (env : Env) (s : State) : Nat → Option (Bool × State)
  | 0 => some (true, s)
  | n + 1 => (env.readEvents s n).bind fun r =>
    if r.1 then readEventsPass.attempt env.step r.2 else some r

/-- An object with the handle `h`, or after its `shutDown`, where nothing else is going on. -/
def State.start (h : Option Handle) (o : Object) : State where
  session :=
    { obj := { o with mpv := h }
      called := if h.isNone then [.shutDown] else [] }

/-- The block withstands the delegate. -/
structure Withstands (env : Env) (s : State) : Prop where
  /-- Up to any number of passes it does not block, mpv is only called with a handle in use, and
      no event is read whose handle was destroyed. -/
  goes : ∀ n, ∃ more t, env.readEvents s n = some (more, t) ∧
    t.session.misused = [] ∧ t.stale = false
  /-- It ends when the queued events are exhausted. -/
  exhausted : ∀ n, (env.event n).eventId = .none → ∃ t, env.readEvents s (n + 1) = some (false, t)
  /-- It ends when `shutDown` has run, and waits for no other event. -/
  stopped : ∀ n t, env.readEvents s n = some (true, t) → .shutDown ∈ t.session.called →
    ∃ u, env.readEvents s (n + 1) = some (false, u) ∧ u.given = t.given

/-! ## The calls of the delegate -/

/-- Where the thread is in a call. -/
structure Mode where
  /-- What `mpv` holds. -/
  mpv : Option Handle
  /-- The handle was destroyed, and `mpv` has not been set to null. -/
  dangling : Bool := false
  /-- The lock that the thread has. -/
  lock : Option Lock := none
  deriving DecidableEq, Repr

/-- It is between two calls. -/
@[simp] def Mode.idle (h : Option Handle) : Mode := { mpv := h }

/-- No lock is taken by a thread that has one, and mpv is only called with a handle in use. -/
@[simp] def Mode.ok (m : Mode) : Op → Prop
  | .lock _ => m.lock = none
  | .unlock l => m.lock = some l
  | .call _ .waitEvent | .inDelegate => False
  | .call h _ => h.isSome ∧ h = m.mpv ∧ m.dangling = false
  | .set .mpv x => x = none
  | _ => True

/-- `mpv` is read as it is. -/
@[simp] def Mode.admits (m : Mode) : (op : Op) → op.Res → Prop
  | .get .mpv, r => r = m.mpv
  | _, _ => True

@[simp] def Mode.after (m : Mode) : Op → Mode
  | .lock l => { m with lock := some l }
  | .unlock _ => { m with lock := none }
  | .call _ .detachDestroy => { m with dangling := true }
  | .set .mpv x => { m with mpv := x, dangling := false }
  | _ => m

@[simp] def callRules : Rules Op Op.Res Mode where
  ok := Mode.ok
  admits := Mode.admits
  next m op _ m' := m' = m.after op

/-- The handle that is in use after the call. -/
def Call.leaves (h : Option Handle) : Call → Option Handle
  | .shutDown => none
  | _ => h

/-- While `mpv` is `h` the program follows the rules, and leaves all as it was. -/
def Keeps {α : Type} (h : Option Handle) (p : Core α) : Prop :=
  Safe callRules p (fun _ m => m = .idle h) (.idle h)

theorem primitive_keeps (h : Option Handle) (g : Primitive) : Keeps h g.body := by
  cases g with
  | double name => cases h <;> simp [Keeps, Primitive.body, doubleGetter]
  | string key =>
    cases h <;> simp [Keeps, Primitive.body, Core.getParameterStr]
    rintro (_ | _) <;> simp

theorem getter_keeps (h : Option Handle) (g : Getter) : Keeps h g.body := by
  refine g.body_composed.safe rfl ?_ ?_
  · rintro m op rfl hop
    cases op with
    | get v => exact ⟨trivial, fun _ _ hm => hm⟩
    | set v x => cases v <;> first | exact hop.elim | exact ⟨trivial, fun _ _ hm => hm⟩
    | call | lock | unlock | glCall | free | initWithCString | uninitialized | dispatch | deliver
    | inDelegate => exact hop.elim
  · rintro g m rfl
    exact primitive_keeps h g

theorem setParameter_keeps (h : Option Handle) (key : NSString) (value : Value) :
    Keeps h (setParameter key value) := by
  cases h <;> simp [Keeps, setParameter]

theorem setter_keeps (h : Option Handle) (s : Setter) : Keeps h s.body := by
  refine s.assigned.safe (fun v x hv => ?_) (setParameter_keeps h)
  cases v <;> first | exact ⟨trivial, fun _ hm => hm⟩ | cases hv

theorem setPause_keeps (h : Option Handle) (pause : Int) : Keeps h (setPause pause) := by
  cases h <;> simp [Keeps, setPause]

/-- Every call of the delegate follows the rules, and only `shutDown` takes the handle. -/
theorem call_safe (h : Option Handle) {c : Call} (hc : Reentrant c) :
    Safe callRules c.body (fun _ m => m = .idle (Call.leaves h c)) (.idle h) := by
  cases c with
  | shutDown => cases h <;> simp [Call.body, Core.shutDown, Call.leaves]
  | stop => cases h <;> simp [Call.body, Core.stop, Call.leaves]
  | play => exact setPause_keeps h 0
  | pause => exact setPause_keeps h 1
  | setter s => exact setter_keeps h s
  | getter g => exact getter_keeps h g
  | «open» | seekTime | addSubtitle | addAudio | setUrl | setIsStopEvent | setIsLog | setOptionDic
  | setHeaderDic | setAvOptionDic => exact hc.elim

/-! ## What a call does alone -/

/-- The session is as the mode says, and nothing went wrong. -/
structure Mode.Fits (m : Mode) (s : Session.State) : Prop where
  misused : s.misused = []
  holder : ∀ l, s.holder l = if m.lock = some l then some .queue else none
  mpv : s.obj.mpv = m.mpv
  live : m.dangling = false → ∀ h ∈ m.mpv, h ∉ s.destroyed

variable {m : Mode} {s t : Session.State} {a : Answer} {op : Op}

theorem Mode.Fits.congr (hs : m.Fits s) (hmisused : t.misused = s.misused)
    (hholder : t.holder = s.holder) (hmpv : t.obj.mpv = s.obj.mpv)
    (hdestroyed : t.destroyed = s.destroyed) : m.Fits t where
  misused := hmisused.trans hs.misused
  holder l := hholder ▸ hs.holder l
  mpv := hmpv.trans hs.mpv
  live hm h hh := hdestroyed ▸ hs.live hm h hh

/-- mpv is called with the handle that is in use. -/
theorem Mode.Fits.invoke (hs : m.Fits s) {hd : Option Handle} {f : Api}
    (hop : m.ok (.call hd f)) : (m.after (.call hd f)).Fits (s.invoke hd f) := by
  have hcall : hd.isSome ∧ hd = m.mpv ∧ m.dangling = false := by
    cases f <;> first | exact hop | exact hop.elim
  obtain ⟨hsome, hmpv, hm⟩ := hcall
  obtain ⟨h, rfl⟩ := Option.isSome_iff_exists.mp hsome
  have hlive : s.Live (some h) := ⟨h, rfl, hs.live hm h hmpv.symm⟩
  unfold State.invoke
  rw [if_pos hlive]
  cases f with
  | detachDestroy => exact ⟨hs.misused, hs.holder, hs.mpv, nofun⟩
  | setOptionString | command | setProperty | getProperty | waitEvent | clearWakeupCallback =>
    exact hs.congr rfl rfl rfl rfl

theorem Mode.Fits.lock (hs : m.Fits s) {l : Lock} (hop : m.ok (.lock l)) :
    (m.after (.lock l)).Fits { s with holder := Function.update s.holder l (some .queue) } := by
  have hfree : m.lock = none := hop
  refine ⟨hs.misused, fun k => ?_, hs.mpv, hs.live⟩
  have hk := hs.holder k
  cases l <;> cases k <;> simp_all

theorem Mode.Fits.unlock (hs : m.Fits s) {l : Lock} (hop : m.ok (.unlock l)) :
    (m.after (.unlock l)).Fits { s with holder := Function.update s.holder l none } := by
  have hheld : m.lock = some l := hop
  refine ⟨hs.misused, fun k => ?_, hs.mpv, hs.live⟩
  have hk := hs.holder k
  cases l <;> cases k <;> simp_all

/-- An operation that is ok does not block, and leads to the next mode. -/
theorem Mode.Fits.perform (hs : m.Fits s) (hop : m.ok op) :
    ∃ r t, s.perform .queue a op = some (r, t) ∧ m.admits op r ∧ (m.after op).Fits t ∧
      t.called = s.called := by
  cases op with
  | get v =>
    refine ⟨_, s, rfl, ?_, hs, rfl⟩
    cases v <;> first | trivial | exact hs.mpv
  | set v x =>
    refine ⟨(), _, rfl, trivial, ?_, rfl⟩
    cases v
    case mpv =>
      obtain rfl := hop
      exact ⟨hs.misused, hs.holder, rfl, nofun⟩
    all_goals exact hs.congr rfl rfl rfl rfl
  | lock l =>
    have hfree : s.holder l = none := by
      rw [hs.holder, hop]
      rfl
    exact ⟨(), _, if_pos hfree, trivial, hs.lock hop, rfl⟩
  | unlock l => exact ⟨(), _, rfl, trivial, hs.unlock hop, rfl⟩
  | call hd f =>
    have hperform : s.perform .queue a (.call hd f) = some (a.api f, s.invoke hd f) := rfl
    exact ⟨_, _, hperform, trivial, hs.invoke hop, (State.perform_frame hperform).called⟩
  | glCall | free | initWithCString | uninitialized | dispatch | deliver =>
    exact ⟨_, _, rfl, trivial, hs.congr rfl rfl rfl rfl, rfl⟩
  | inDelegate => exact hop.elim

/-- Nothing is going on in the session, `mpv` is `h`, and it is null after `shutDown`. -/
structure Rests (h : Option Handle) (s : Session.State) : Prop where
  fits : (Mode.idle h).Fits s
  called : .shutDown ∈ s.called → h = none

theorem Rests.call {h : Option Handle} {s : Clocked} (hs : (Mode.idle h).Fits s.session) (env : Env)
    {c : Call} (hc : Reentrant c) :
    ∃ u t, c.body.attempt env.exec s = some (u, t) ∧
      (Mode.idle (Call.leaves h c)).Fits t.session ∧ t.session.called = s.session.called := by
  have hexec (m : Mode) (op : Op) (t : Clocked)
      (ht : m.Fits t.session ∧ t.session.called = s.session.called) (hop : callRules.ok m op) :
      ∃ r t' m', env.exec op t = some (r, t') ∧ callRules.admits m op r ∧ callRules.next m op r m' ∧
        Mode.Fits m' t'.session ∧ t'.session.called = s.session.called := by
    obtain ⟨r, t', hperform, hadmits, hfits, hcalled⟩ := ht.1.perform hop
    exact ⟨r, _, _, congrArg (Option.map _) hperform, hadmits, rfl, hfits, hcalled.trans ht.2⟩
  obtain ⟨u, t, m, hrun, rfl, hfits, hcalled⟩ := (call_safe h hc).attempt
    (I := fun (m : Mode) (t : Clocked) =>
      m.Fits t.session ∧ t.session.called = s.session.called) ⟨hs, rfl⟩ hexec
  exact ⟨u, t, hrun, hfits, hcalled⟩

/-- The delegate is never blocked, and the handle is left as it was or destroyed. -/
theorem Rests.calls {h : Option Handle} {s : Clocked} (hs : Rests h s.session) (env : Env)
    (cs : List { c : Call // Reentrant c }) :
    ∃ t h', env.calls cs s = some t ∧ Rests h' t.session ∧ (h' = h ∨ h' = none) := by
  induction cs generalizing h s with
  | nil => exact ⟨s, h, rfl, hs, .inl rfl⟩
  | cons c cs ih =>
    obtain ⟨c, hc⟩ := c
    let called : Clocked :=
      { s with session := { s.session with called := s.session.called ++ [c] } }
    have hfits : (Mode.idle h).Fits called.session := hs.fits.congr rfl rfl rfl rfl
    obtain ⟨u, t, hrun, hfits', hcalled⟩ := Rests.call hfits env hc
    have hrests : Rests (Call.leaves h c) t.session := by
      refine ⟨hfits', fun hmem => ?_⟩
      rw [hcalled] at hmem
      obtain hmem | hlast := List.mem_append.mp hmem
      · rw [hs.called hmem]
        cases c <;> rfl
      · rw [← List.mem_singleton.mp hlast]
        rfl
    obtain ⟨t', h', hrest, hrests', hh⟩ := ih hrests
    refine ⟨t', h', ?_, hrests', ?_⟩
    · rw [Env.calls, hrun, Option.bind_some, hrest]
    · obtain rfl | rfl := hh
      · cases c <;> first | exact .inl rfl | exact .inr rfl
      · exact .inr rfl

/-! ## A pass of the loop -/

/-- Where the queue is in a pass. -/
structure Turn where
  /-- The handle that is in use. -/
  handle : Option Handle
  /-- The event that the pass was given. -/
  event : Option Event := none

/-- An event is read while its handle is in use. -/
@[simp] def Turn.ok (m : Turn) : Stmt → Prop
  | .eventId | .eventData => m.event.isSome ∧ m.handle.isSome
  | .op (.call h .waitEvent) => m.event = none ∧ h.isSome ∧ h = m.handle
  | .op (.set v _) => v ≠ .mpv
  | .op (.get _) | .op (.deliver _) | .op .inDelegate => True
  | _ => False

@[simp] def Turn.admits (m : Turn) : (x : Stmt) → x.Res → Prop
  | .op (.get .mpv), r => r = m.handle
  | .eventId, r => ∀ event ∈ m.event, r = event.eventId
  | _, _ => True

/-- The delegate may destroy the handle of the event. -/
@[simp] def Turn.next (m : Turn) : (x : Stmt) → x.Res → Turn → Prop
  | .op (.call _ .waitEvent), event, m' => m' = { m with event := some event }
  | .op .inDelegate, _, m' => m' = m ∨ m' = { m with handle := none }
  | _, _, m' => m' = m

@[simp] def passRules : Rules Stmt Stmt.Res Turn where
  ok := Turn.ok
  admits := Turn.admits
  next := Turn.next

/-- The pass was given an event. -/
def Turn.Took (m : Turn) : Prop := ∃ event, m.event = some event ∧ event.eventId ≠ .none

/-- The event is not read again after a message to the delegate. -/
theorem handleEvent_safe (h : Handle) (event : Event) :
    Safe passRules handleEvent (fun _ m => m.event = some event) ⟨some h, some event⟩ := by
  simp only [handleEvent, eventId, perform_bind, safe_act]
  refine ⟨⟨rfl, rfl⟩, fun id _ m hm => ?_⟩
  obtain rfl := hm
  cases id
  case playbackRestart | endFile | startFile => simp [runCoreEvent, perform]
  case fileLoaded => rfl
  all_goals exact ⟨⟨rfl, rfl⟩, fun _ _ m hm => hm ▸ rfl⟩

theorem readEventsPass_safe (h : Option Handle) :
    Safe passRules readEventsPass (fun more m => more = true → m.Took) { handle := h } := by
  have hrest (h : Handle) (event : Event) (hsome : event.eventId ≠ .none) :
      Safe passRules (handleEvent >>= fun _ => .ret true) (fun more m => more = true → m.Took)
        ⟨some h, some event⟩ :=
    (handleEvent_safe h event).bind fun _ _ hm _ => ⟨event, hm, hsome⟩
  cases h with
  | none => simp [readEventsPass, perform]
  | some h => simpa [readEventsPass, perform] using hrest h

/-- What the queue knows about the event in its pass after `n` others. -/
def Turn.Recalls (env : Env) (n : Nat) (s : State) (m : Turn) : Prop :=
  match m.event with
  | none => s.given = n
  | some event => s.given = n + 1 ∧ event = env.event n ∧ s.event = event ∧
    (m.handle.isSome → s.owner = m.handle)

/-- The state is as the turn says, and no event was read too late. -/
structure Turn.Fits (env : Env) (n : Nat) (m : Turn) (s : State) : Prop where
  rests : Rests m.handle s.session
  stale : s.stale = false
  recalls : m.Recalls env n s

section step

variable {env : Env} {n : Nat} {m : Turn} {s : State}

/-- The memory of the event is there while its handle is in use. -/
theorem Turn.Fits.touch (hs : m.Fits env n s) (hm : m.event.isSome ∧ m.handle.isSome) :
    s.touch = s ∧ m.event = some s.event := by
  obtain ⟨event, hevent⟩ := Option.isSome_iff_exists.mp hm.1
  obtain ⟨h, hh⟩ := Option.isSome_iff_exists.mp hm.2
  have hrecalls := hs.recalls
  simp only [Turn.Recalls, hevent] at hrecalls
  obtain ⟨-, -, hmemory, howner⟩ := hrecalls
  have hread : decide (∃ h' ∈ s.owner, h' ∈ s.session.destroyed) = false := by
    refine decide_eq_false ?_
    rintro ⟨h', hh', hdestroyed⟩
    exact hs.rests.fits.live rfl h' (howner hm.2 ▸ hh') hdestroyed
  refine ⟨?_, hevent.trans (congrArg some hmemory.symm)⟩
  rw [State.touch, hread, Bool.or_false]

/-- An operation outside of the calls, other than the two that concern the event. -/
theorem Turn.Fits.perform (hs : m.Fits env n s) {op : Op} (hop : (Mode.idle m.handle).ok op)
    (hafter : (Mode.idle m.handle).after op = .idle m.handle) :
    ∃ r t, (s.toClocked.perform (env.answer s.time) op).map
        (fun r => (r.1, { s with toClocked := r.2 })) = some (r, t) ∧
      (Mode.idle m.handle).admits op r ∧ m.Fits env n t := by
  obtain ⟨r, t, hperform, hadmits, hfits, hcalled⟩ :=
    hs.rests.fits.perform (a := env.answer s.time) hop
  refine ⟨r, { s with toClocked := ⟨t, s.time + 1⟩ }, ?_, hadmits, ⟨?_, ?_⟩, hs.stale, hs.recalls⟩
  · rw [Clocked.perform, hperform, Option.map_some, Option.map_some]
  · exact hafter ▸ hfits
  · exact fun hmem => hs.rests.called (hcalled ▸ hmem)

/-- mpv gives the next event, in memory of its handle. -/
theorem Turn.Fits.waitEvent (hs : m.Fits env n s) (hm : m.event = none) (hh : m.handle.isSome) :
    ∃ t, env.step (.op (.call m.handle .waitEvent)) s = some (env.event n, t) ∧
      Turn.Fits env n { m with event := some (env.event n) } t := by
  have hrecalls := hs.recalls
  simp only [Turn.Recalls, hm] at hrecalls
  obtain rfl := hrecalls
  obtain ⟨h, hh⟩ := Option.isSome_iff_exists.mp hh
  have hlive : s.session.Live m.handle := ⟨h, hh, hs.rests.fits.live rfl h hh⟩
  have hinvoke : s.session.invoke m.handle .waitEvent =
      { s.session with executed := s.session.executed ++ [.waitEvent] } := if_pos hlive
  refine ⟨_, rfl, ⟨?_, ?_⟩, hs.stale, rfl, rfl, rfl, fun _ => rfl⟩
  · exact hinvoke ▸ hs.rests.fits.congr rfl rfl rfl rfl
  · exact hinvoke ▸ hs.rests.called

/-- The delegate comes back. -/
theorem Turn.Fits.inDelegate (hs : m.Fits env n s) :
    ∃ (t : State) (m' : Turn), env.step (.op .inDelegate) s = some ((), t) ∧
      (m' = m ∨ m' = { m with handle := none }) ∧ m'.Fits env n t := by
  obtain ⟨t, h', hcalls, hrests, hh⟩ := hs.rests.calls env (env.delegate s.messages)
  have hstep : env.step (.op .inDelegate) s =
      some ((), { s with toClocked := t, messages := s.messages + 1 }) :=
    congrArg (Option.map _) hcalls
  obtain rfl | rfl := hh
  · exact ⟨_, m, hstep, .inl rfl, hrests, hs.stale, hs.recalls⟩
  · refine ⟨_, { m with handle := none }, hstep, .inr rfl, hrests, hs.stale, ?_⟩
    have hrecalls := hs.recalls
    cases hevent : m.event with
    | none => simpa [Turn.Recalls, hevent] using hrecalls
    | some event =>
      simp only [Turn.Recalls, hevent] at hrecalls ⊢
      exact ⟨hrecalls.1, hrecalls.2.1, hrecalls.2.2.1, nofun⟩

/-- A statement that is ok does not block, and leads to the next turn. -/
theorem Turn.Fits.step {x : Stmt} (hs : m.Fits env n s) (hx : m.ok x) :
    ∃ r t m', env.step x s = some (r, t) ∧ m.admits x r ∧ m.next x r m' ∧ m'.Fits env n t := by
  cases x with
  | eventId =>
    obtain ⟨htouch, hevent⟩ := hs.touch hx
    refine ⟨_, _, m, rfl, fun event hmem => ?_, rfl, htouch.symm ▸ hs⟩
    rw [Option.some.inj (hevent.symm.trans hmem)]
  | eventData =>
    obtain ⟨htouch, -⟩ := hs.touch hx
    exact ⟨_, _, m, rfl, trivial, rfl, htouch.symm ▸ hs⟩
  | op o =>
    cases o with
    | get v =>
      have hop : (Mode.idle m.handle).ok (.get v) := trivial
      obtain ⟨r, t, hperform, hadmits, ht⟩ := hs.perform hop rfl
      refine ⟨r, t, m, hperform, ?_, rfl, ht⟩
      cases v <;> exact hadmits
    | set v x =>
      have hop : (Mode.idle m.handle).ok (.set v x) := by
        cases v <;> trivial
      have hafter : (Mode.idle m.handle).after (.set v x) = .idle m.handle := by
        cases v <;> first | rfl | exact absurd rfl hx
      obtain ⟨r, t, hperform, -, ht⟩ := hs.perform hop hafter
      exact ⟨r, t, m, hperform, trivial, rfl, ht⟩
    | call hd f =>
      cases f with
      | waitEvent =>
        obtain ⟨hevent, hsome, rfl⟩ := hx
        obtain ⟨t, hstep, ht⟩ := hs.waitEvent hevent hsome
        exact ⟨_, t, _, hstep, trivial, rfl, ht⟩
      | setOptionString | command | setProperty | getProperty | clearWakeupCallback
      | detachDestroy => exact hx.elim
    | deliver status =>
      have hop : (Mode.idle m.handle).ok (.deliver status) := trivial
      obtain ⟨r, t, hperform, -, ht⟩ := hs.perform hop rfl
      exact ⟨r, t, m, hperform, trivial, rfl, ht⟩
    | inDelegate =>
      obtain ⟨t, m', hstep, hm, ht⟩ := hs.inDelegate
      exact ⟨(), t, m', hstep, trivial, hm, ht⟩
    | lock | unlock | glCall | free | initWithCString | uninitialized | dispatch => exact hx.elim

end step

/-! ## The loop -/

theorem Turn.Fits.pass {env : Env} {n : Nat} {s : State} {h : Option Handle}
    (hs : Turn.Fits env n { handle := h } s) :
    ∃ (more : Bool) (t : State) (m : Turn), readEventsPass.attempt env.step s = some (more, t) ∧
      (more = true → m.Took) ∧ m.Fits env n t :=
  (readEventsPass_safe h).attempt hs fun _ _ _ hfits hok => hfits.step hok

/-- An event was given, and the queue is ready for another one. -/
theorem Turn.Fits.again {env : Env} {n : Nat} {m : Turn} {s : State} (hs : m.Fits env n s)
    (hm : m.Took) :
    (env.event n).eventId ≠ .none ∧ Turn.Fits env (n + 1) { handle := m.handle } s := by
  obtain ⟨event, hevent, hsome⟩ := hm
  have hrecalls := hs.recalls
  simp only [Turn.Recalls, hevent] at hrecalls
  obtain ⟨hgiven, rfl, -⟩ := hrecalls
  exact ⟨hsome, hs.rests, hs.stale, hgiven⟩

/-- After any number of passes the loop has ended, or it has been given as many events. -/
theorem readEvents_fits (env : Env) (h : Option Handle) (o : Object) (n : Nat) :
    ∃ (more : Bool) (t : State) (m : Turn) (k : Nat),
      env.readEvents (.start h o) n = some (more, t) ∧ m.Fits env k t ∧
        (more = true → k = n ∧ (∃ h', m = { handle := h' }) ∧
          ∀ i < n, (env.event i).eventId ≠ .none) := by
  induction n with
  | zero =>
    refine ⟨true, _, { handle := h }, 0, rfl, ⟨⟨?_, ?_⟩, rfl, rfl⟩, fun _ => ⟨rfl, ⟨h, rfl⟩, nofun⟩⟩
    · exact ⟨rfl, fun _ => rfl, rfl, fun _ _ _ => List.not_mem_nil⟩
    · cases h <;> simp [State.start]
  | succ n ih =>
    obtain ⟨more, t, m, k, hrun, hfits, hmore⟩ := ih
    cases more with
    | false =>
      refine ⟨false, t, m, k, ?_, hfits, nofun⟩
      rw [Env.readEvents, hrun]
      rfl
    | true =>
      obtain ⟨rfl, ⟨h', rfl⟩, hgiven⟩ := hmore rfl
      obtain ⟨more, u, m, hpass, htook, hfits'⟩ := hfits.pass
      have hnext : env.readEvents (.start h o) (k + 1) = some (more, u) := by
        rw [Env.readEvents, hrun]
        exact hpass
      cases more with
      | false => exact ⟨false, u, m, k, hnext, hfits', nofun⟩
      | true =>
        obtain ⟨hsome, hagain⟩ := hfits'.again (htook rfl)
        refine ⟨true, u, _, k + 1, hnext, hagain, fun _ => ⟨rfl, ⟨_, rfl⟩, fun i hi => ?_⟩⟩
        obtain hi | rfl := Nat.lt_succ_iff_lt_or_eq.mp hi
        · exact hgiven i hi
        · exact hsome

/-- The block of `readEvents` withstands every delegate, whatever events are queued, and
    whatever mpv answers. -/
theorem readEvents_withstands (env : Env) (h : Option Handle) (o : Object) :
    Withstands env (.start h o) := by
  refine ⟨fun n => ?_, fun n hn => ?_, fun n t hrun hcalled => ?_⟩
  · obtain ⟨more, t, m, k, hrun, hfits, -⟩ := readEvents_fits env h o n
    exact ⟨more, t, hrun, hfits.rests.fits.misused, hfits.stale⟩
  · obtain ⟨more, t, m, k, hrun, -, hmore⟩ := readEvents_fits env h o (n + 1)
    cases more with
    | false => exact ⟨t, hrun⟩
    | true =>
      obtain ⟨-, -, hgiven⟩ := hmore rfl
      exact absurd hn (hgiven n n.lt_succ_self)
  · obtain ⟨more, u, m, k, hrun', hfits, hmore⟩ := readEvents_fits env h o n
    obtain ⟨rfl, rfl⟩ := Prod.mk.inj (Option.some.inj (hrun.symm.trans hrun'))
    obtain ⟨rfl, ⟨h', rfl⟩, -⟩ := hmore rfl
    have hmpv : t.session.obj.mpv = none :=
      hfits.rests.fits.mpv.trans (hfits.rests.called hcalled)
    refine ⟨{ t with toClocked := ⟨t.session, t.time + 1⟩ }, ?_, rfl⟩
    rw [Env.readEvents, hrun]
    simp [readEventsPass, perform, Env.step, Clocked.perform, State.perform, Object.get, hmpv]

/-- Two events are queued, and the delegate shuts the player down at the first one. -/
example :
    let env : Env :=
      { answer := fun _ => {}
        event := fun n => if n < 2 then ⟨.playbackRestart, .none⟩ else ⟨.none, .none⟩
        delegate := fun _ => [⟨.getter .duration, trivial⟩, ⟨.shutDown, trivial⟩] }
    (env.readEvents (.start (some 1) {}) 2).map (fun r => (r.1, r.2.given, r.2.session.destroyed)) =
      some (false, 1, [1]) := by
  decide +kernel

end Reentrancy
