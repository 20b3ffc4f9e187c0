-- SUMMARY: A second session of an object against the first session of a fresh one.
import KitPlayerCore.Core.Effects
import KitPlayerCore.Mpv.EventQueue
import KitPlayerCore.Session.Machine

/-!
# Renewal

`initView` makes a new handle, new arrays and a new `lkView`, and leaves the flags as the
last session left them. `shutDown` has set `isStopEvent`, and only the handler of
`MPV_EVENT_START_FILE` clears it, which no event reaches while it is set.
-/

namespace Renewal

open Core Mpv Transition Program

/-- When something is asked of the outside: the number of steps taken, and the calls that
    mpv was given to change something. -/
structure Moment where
  step : Nat
  received : List Api

/-- What the outside answers. -/
structure Env where
  api : Moment → (f : Api) → f.Res
  text : Moment → Pointer → Option NSString
  double : Moment → Float

/-- A session of an object. The last three fields record the calls that mpv was given, the
    reports to the delegate, and what the getters returned before an item was loaded. -/
structure State where
  obj : Object
  /-- The blocks that are pending, the next one first. -/
  blocks : List Block := []
  /-- The queue is to make another pass of the loop in `readEvents`. -/
  again : Bool := false
  events : EventQueue
  /-- The wakeup callback is set. -/
  registered : Bool := true
  step : Nat := 0
  received : List Api := []
  sent : List EventStatus := []
  readings : List Reading := []

namespace State

def now (s : State) : Moment := ⟨s.step, s.received⟩

/-- Call mpv. -/
def invoke (env : Env) (s : State) : (f : Api) → f.Res × State
  | .waitEvent =>
    match s.events.next with
    | some (e, events) => (e, { s with events })
    | none => (⟨.none, .none⟩, { s with events := { s.events with needWakeup := false } })
  | .getProperty name format => (env.api s.now (.getProperty name format), s)
  | .clearWakeupCallback =>
    ((), { s with received := s.received ++ [.clearWakeupCallback], registered := false })
  | f => (env.api s.now f, { s with received := s.received ++ [f] })

/-- The effect of an operation of a method. -/
def perform (env : Env) : (op : Op) → State → op.Res × State
  | .get v, s => (s.obj.get v, s)
  | .set v x, s => ((), { s with obj := s.obj.set v x })
  | .call _ f, s => s.invoke env f
  | .dispatch b, s => ((), { s with blocks := s.blocks ++ [b] })
  | .deliver status, s => ((), { s with sent := s.sent ++ [status] })
  | .initWithCString p, s => (env.text s.now p, s)
  | .uninitialized, s => (env.double s.now, s)
  | .lock _, s | .unlock _, s | .glCall _, s | .free _, s | .inDelegate, s => ((), s)

/-- A call of a public method. -/
def call (env : Env) (s : State) : Call → State
  | .getter g =>
    let r := run (perform env) g.read s
    if s.obj.isLoaded then r.2 else { r.2 with readings := r.2.readings ++ [r.1] }
  | c => (run (perform env) c.body s).2

/-- The effect of an operation on the queue, where the delegate makes the calls when it is
    reported to. -/
def performOnQueue (env : Env) (calls : List Call) : (op : Op) → State → op.Res × State
  | .inDelegate, s => ((), calls.foldl (call env) s)
  | op, s => perform env op s

/-- The queue runs a block, or a pass of its loop. -/
def runOnQueue (env : Env) (s : State) (calls : List Call) (p : Core Bool) : State :=
  let r := run (performOnQueue env calls) p s
  { r.2 with again := r.1 }

/-- The queue goes on, if it has anything to do. -/
def serve (env : Env) (s : State) (calls : List Call) : State :=
  if s.again then s.runOnQueue env calls readEventsPass
  else match s.blocks with
    | [] => s
    | b :: blocks => { s with blocks }.runOnQueue env calls b.body

def setNeedWakeup (s : State) : State :=
  { s with events := { s.events with needWakeup := true } }

/-- `wakeup_client`. -/
def wakeupClient (env : Env) (s : State) : State :=
  if s.events.needWakeup then s
  else if s.registered then (run (perform env) Core.wakeup s.setNeedWakeup).2
  else s.setNeedWakeup

/-- mpv posts an event. -/
def post (env : Env) (s : State) (e : Event) : State :=
  match s.events.append e with
  | (events, true) => { s with events }.wakeupClient env
  | (events, false) => { s with events }

end State

inductive Label where
  | call (c : Call)
  | post (e : Event)
  /-- `wakeup_client` is called for something else than an event. -/
  | wake
  | serve (calls : List Call)

def State.next (env : Env) (s : State) : Label → State
  | .call c => { s with step := s.step + 1 }.call env c
  | .post e => { s with step := s.step + 1 }.post env e
  | .wake => { s with step := s.step + 1 }.wakeupClient env
  | .serve calls => { s with step := s.step + 1 }.serve env calls

/-- A successful `initView` of the object `o` that made the handle `h`, where the events
    are those that were posted since. The queue is new, and mpv calls the new callback. -/
def State.initView (env : Env) (o : Object) (h : Handle) (events : EventQueue) : State :=
  let obj := { o with subArray := [], audioArray := [], isStopDraw := false, mpv := some h }
  (run (State.perform env) Core.wakeup { obj, events }).2

/-- What can be told apart. -/
structure Observed where
  received : List Api
  sent : List EventStatus
  readings : List Reading

def State.observed (s : State) : Observed := ⟨s.received, s.sent, s.readings⟩

/-- The run of the labels after `initView` of `o`. -/
def session (env : Env) (h : Handle) (events : EventQueue) (ls : List Label) (o : Object) : State :=
  ls.foldl (State.next env) (.initView env o h events)

/-- No sequence of calls and events tells a session of `o` from one of a fresh object with
    the same URL. -/
def LikeFresh (o : Object) : Prop :=
  ∀ env h events ls,
    (session env h events ls o).observed = (session env h events ls { url := o.url }).observed

/-! ## What the methods do not see -/

/-- The variables that decide what the methods do, apart from those that count tracks. -/
def State.forget (s : State) : State :=
  { s with obj := {
      mpv := s.obj.mpv
      url := s.obj.url
      isLoaded := s.obj.isLoaded
      isStopEvent := s.obj.isStopEvent
      isManualStop := s.obj.isManualStop } }

/-- Before an item is loaded, there are no tracks. -/
def Empty (o : Object) : Prop := o.isLoaded = false → o.subArray = [] ∧ o.audioArray = []

/-- The two states differ only in what is not seen. -/
structure Alike (s t : State) : Prop where
  forget : s.forget = t.forget
  left : Empty s.obj
  right : Empty t.obj

/-- What is seen is the same. -/
theorem Alike.congr {s t : State} (h : Alike s t) {α : Type} (f : State → α)
    (hf : ∀ s, f s.forget = f s) : f s = f t := by
  rw [← hf s, ← hf t, h.forget]

theorem Alike.isLoaded {s t : State} (h : Alike s t) : s.obj.isLoaded = t.obj.isLoaded :=
  h.congr (fun s => s.obj.isLoaded) fun _ => rfl

theorem Alike.observed {s t : State} (h : Alike s t) : s.observed = t.observed :=
  h.congr State.observed fun _ => rfl

/-- A change outside of the object. -/
theorem Alike.map {s t : State} (h : Alike s t) (f : State → State)
    (hobj : ∀ s, (f s).obj = s.obj) (hforget : ∀ s, (f s).forget = (f s.forget).forget) :
    Alike (f s) (f t) where
  forget := by rw [hforget s, hforget t, h.forget]
  left := hobj s ▸ h.left
  right := hobj t ▸ h.right

/-- What is seen. -/
def stepOk : Op → Prop
  | .get v => v ∈ [Ivar.mpv, .url, .isLoaded, .isStopEvent, .isManualStop]
  | .set .isLoaded x => x = true
  | .set .subArray _ | .set .audioArray _ => False
  | _ => True

variable {env : Env}

theorem perform_forget (env : Env) {op : Op} (hok : stepOk op) (s : State) :
    (s.perform env op).1 = (s.forget.perform env op).1 ∧
      (s.perform env op).2.forget = (s.forget.perform env op).2.forget := by
  cases op with
  | get v => cases v <;> first | exact ⟨rfl, rfl⟩ | simp [stepOk] at hok
  | set v x => cases v <;> exact ⟨rfl, rfl⟩
  | call hd f =>
    cases f with
    | waitEvent =>
      cases hnext : s.events.next <;> simp [State.perform, State.invoke, hnext, State.forget]
    | setOptionString | command | setProperty | getProperty | clearWakeupCallback
    | detachDestroy => exact ⟨rfl, rfl⟩
  | lock | unlock | glCall | free | initWithCString | uninitialized | dispatch | deliver
  | inDelegate => exact ⟨rfl, rfl⟩

/-- Operations other than on tracks keep an object without tracks. -/
theorem perform_empty {op : Op} (hok : stepOk op) {s : State} (h : Empty s.obj) :
    Empty (s.perform env op).2.obj := by
  cases op with
  | set v x => cases v <;> first | exact h | simp_all [stepOk, State.perform, Object.set, Empty]
  | call hd f =>
    cases f with
    | waitEvent =>
      simp only [State.perform, State.invoke]
      split <;> exact h
    | setOptionString | command | setProperty | getProperty | clearWakeupCallback
    | detachDestroy => exact h
  | get | lock | unlock | glCall | free | initWithCString | uninitialized | dispatch | deliver
  | inDelegate => exact h

theorem perform_alike (env : Env) {op : Op} (s t : State) (hok : stepOk op) (h : Alike s t) :
    (s.perform env op).1 = (t.perform env op).1 ∧
      Alike (s.perform env op).2 (t.perform env op).2 := by
  obtain ⟨hs, hs'⟩ := perform_forget env hok s
  obtain ⟨ht, ht'⟩ := perform_forget env hok t
  rw [← h.forget] at ht ht'
  exact ⟨hs.trans ht.symm, hs'.trans ht'.symm, perform_empty hok h.left, perform_empty hok h.right⟩

theorem agree_of_stepOk (env : Env) {α : Type} {p : Core α} (hp : Only stepOk p) :
    Agree (State.perform env) (State.perform env) Alike p :=
  hp.agree fun _ s t => perform_alike env s t

theorem stepOk_of_readOk (op : Op) (h : readOk op) : stepOk op := by
  cases op with
  | get v => cases v <;> simp_all [readOk, stepOk]
  | set => exact h.elim
  | call | lock | unlock | glCall | free | initWithCString | uninitialized | dispatch | deliver
  | inDelegate => trivial

theorem stepOk_of_controlOk (op : Op) (h : controlOk op) : stepOk op := by
  cases op with
  | get v => cases v <;> first | trivial | simp_all [controlOk, plainOk, readOk, stepOk]
  | set v x => cases v <;> trivial
  | call | lock | unlock | glCall | free | initWithCString | uninitialized | dispatch | deliver
  | inDelegate => trivial

/-! ## Counting tracks -/

/-- Counting tracks changes nothing that is seen. -/
theorem forget_of_trackOk (env : Env) {α : Type} {p : Core α} (hp : Only trackOk p) (s : State) :
    (run (State.perform env) p s).2.forget = s.forget := by
  apply hp.run_invariant (State.perform env) (I := fun t => t.forget = s.forget) ?_ rfl
  intro op t hok ht
  rw [← ht]
  cases op with
  | set v x => cases v <;> first | rfl | exact hok.elim
  | call hd f => cases f <;> first | rfl | exact hok.elim
  | glCall | dispatch | deliver | inDelegate => exact hok.elim
  | get | lock | unlock | free | initWithCString | uninitialized => rfl

/-- Before an item is loaded, no track is read. -/
theorem run_initTrackList_unloaded {s : State} (h : s.obj.isLoaded = false) :
    run (State.perform env) initTrackList s =
      (true, { s with obj := { s.obj with isInitTrack := true } }) := by
  have hintValue : NSString.intValue "" = 0 := by decide
  cases hinit : s.obj.isInitTrack with
  | false =>
    cases hmpv : s.obj.mpv <;>
      simp [initTrackList, intGetter, getParameterStr, readTracks, State.perform, Object.get,
        Object.set, hinit, hmpv, h, hintValue]
  | true =>
    have hobj : { s.obj with isInitTrack := true } = s.obj := hinit ▸ rfl
    rw [hobj]
    simp [initTrackList, State.perform, Object.get, hinit]

/-- What the getters that count tracks return before an item is loaded. -/
def emptyReading : Getter → Reading
  | .initTrackList => .done true
  | _ => .count (some 0)

theorem run_trackGetter_unloaded {g : Getter} (hg : ¬ g.Plain) {s : State} (he : Empty s.obj)
    (h : s.obj.isLoaded = false) :
    run (State.perform env) g.read s =
      (emptyReading g, { s with obj := { s.obj with isInitTrack := true } }) := by
  obtain ⟨hsub, haudio⟩ := he h
  cases g
  case audioCount =>
    simp [Getter.read, audioCount, run_initTrackList_unloaded h, State.perform, Object.get, haudio,
      emptyReading]
  case subtitleCount =>
    simp [Getter.read, subtitleCount, run_initTrackList_unloaded h, State.perform, Object.get, hsub,
      emptyReading]
  case initTrackList =>
    simp [Getter.read, run_initTrackList_unloaded h, emptyReading]
  all_goals exact absurd trivial hg

/-! ## Two sessions in step -/

theorem Alike.getter {s t : State} (h : Alike s t) (g : Getter) :
    Alike (s.call env (.getter g)) (t.call env (.getter g)) := by
  simp only [State.call, ← h.isLoaded]
  by_cases hg : g.Plain
  · obtain ⟨hvalue, hstate⟩ :=
      agree_of_stepOk env ((Getter.readOk hg).mono stepOk_of_readOk) s t h
    rw [hvalue]
    split
    · exact hstate
    · exact hstate.map (fun s => { s with readings := s.readings ++ [_] }) (fun _ => rfl)
        fun _ => rfl
  · cases hloaded : s.obj.isLoaded with
    | false =>
      have hloaded' : t.obj.isLoaded = false := h.isLoaded ▸ hloaded
      rw [run_trackGetter_unloaded hg h.left hloaded, run_trackGetter_unloaded hg h.right hloaded']
      have hstate : Alike { s with obj := { s.obj with isInitTrack := true } }
          { t with obj := { t.obj with isInitTrack := true } } := ⟨h.forget, h.left, h.right⟩
      exact hstate.map (fun s => { s with readings := s.readings ++ [_] }) (fun _ => rfl)
        fun _ => rfl
    | true =>
      -- what is counted then is not recorded
      have hkeep (u : State) : (run (State.perform env) g.read u).2.forget = u.forget :=
        forget_of_trackOk env g.trackOk u
      have hempty {u u' : State} (hu : u'.forget = u.forget) (hl : u.obj.isLoaded = true) :
          Empty u'.obj := by
        intro hfalse
        have hsame : u'.forget.obj.isLoaded = u.forget.obj.isLoaded := by rw [hu]
        rw [show u'.forget.obj.isLoaded = false from hfalse] at hsame
        exact absurd (hsame.trans hl) nofun
      exact ⟨(hkeep s).trans (h.forget.trans (hkeep t).symm), hempty (hkeep s) hloaded,
        hempty (hkeep t) (h.isLoaded ▸ hloaded)⟩

theorem Alike.call {s t : State} (h : Alike s t) (c : Call) :
    Alike (s.call env c) (t.call env c) := by
  have hstep (hc : Only stepOk c.body) :
      Alike (run (State.perform env) c.body s).2 (run (State.perform env) c.body t).2 :=
    (agree_of_stepOk env hc s t h).2
  have hcontrol (hc : c.Control) :
      Alike (run (State.perform env) c.body s).2 (run (State.perform env) c.body t).2 :=
    hstep ((Call.controlOk hc).mono stepOk_of_controlOk)
  cases c with
  | getter g => exact h.getter g
  | setIsStopEvent b => exact hstep (by simp [Call.body, Core.setIsStopEvent, stepOk])
  | «open» | stop | play | pause | seekTime | addSubtitle | addAudio | shutDown | setUrl
  | setIsLog | setOptionDic | setHeaderDic | setAvOptionDic | setter =>
    apply hcontrol
    intro hc
    cases hc

theorem Alike.calls {s t : State} (h : Alike s t) (calls : List Call) :
    Alike (calls.foldl (State.call env) s) (calls.foldl (State.call env) t) := by
  induction calls generalizing s t with
  | nil => exact h
  | cons c calls ih => exact ih (h.call c)

theorem performOnQueue_alike {calls : List Call} (op : Op) (s t : State) (hok : stepOk op)
    (h : Alike s t) :
    (s.performOnQueue env calls op).1 = (t.performOnQueue env calls op).1 ∧
      Alike (s.performOnQueue env calls op).2 (t.performOnQueue env calls op).2 := by
  cases op with
  | inDelegate => exact ⟨rfl, h.calls calls⟩
  | get | set | lock | unlock | call | glCall | free | initWithCString | uninitialized | dispatch
  | deliver => exact perform_alike env s t hok h

section Queue

variable {calls : List Call}

theorem agreeOnQueue_of_stepOk {α : Type} {p : Core α} (hp : Only stepOk p) :
    Agree (State.performOnQueue env calls) (State.performOnQueue env calls) Alike p :=
  hp.agree fun op s t => performOnQueue_alike op s t

/-- The handler of `MPV_EVENT_START_FILE` clears all that is not seen. -/
theorem agree_startFile (event : Event) (he : event.eventId = .startFile) :
    Agree (State.performOnQueue env calls) (State.performOnQueue env calls) Alike
      (handleEvent event) := by
  intro s t h
  have hempty (o : Object) (hsub : o.subArray = []) (haudio : o.audioArray = []) : Empty o :=
    fun _ => ⟨hsub, haudio⟩
  have hforget : ({ s.forget with obj := { s.forget.obj with
      isLoaded := false, isManualStop := false, isStopEvent := false } } : State) =
      { t.forget with obj := { t.forget.obj with
        isLoaded := false, isManualStop := false, isStopEvent := false } } := by rw [h.forget]
  simp only [handleEvent, he]
  exact ⟨trivial, hforget, hempty _ rfl rfl, hempty _ rfl rfl⟩

theorem agree_handleEvent (event : Event) :
    Agree (State.performOnQueue env calls) (State.performOnQueue env calls) Alike
      (handleEvent event) := by
  by_cases he : event.eventId = .startFile
  · exact agree_startFile event he
  · apply agreeOnQueue_of_stepOk
    simp only [handleEvent, runCoreEvent]
    split <;> simp_all [stepOk]

theorem agree_readEventsPass :
    Agree (State.performOnQueue env calls) (State.performOnQueue env calls) Alike
      readEventsPass := by
  have hop {op : Op} (hok : stepOk op) (s t : State) (h : Alike s t) :
      (s.performOnQueue env calls op).1 = (t.performOnQueue env calls op).1 ∧
        Alike (s.performOnQueue env calls op).2 (t.performOnQueue env calls op).2 :=
    performOnQueue_alike op s t hok h
  refine agree_act (hop (by simp [stepOk])) fun mpv => agree_ite (agree_ret _) ?_
  refine agree_act (hop (by simp [stepOk])) fun stop => agree_ite (agree_ret _) ?_
  refine agree_act (hop (by simp [stepOk])) fun h => agree_act (hop trivial) fun event => ?_
  exact agree_ite (agree_ret _) ((agree_handleEvent event).bind fun _ => agree_ret _)

theorem agree_body (b : Block) :
    Agree (State.performOnQueue env calls) (State.performOnQueue env calls) Alike b.body := by
  cases b with
  | readEvents => exact agree_readEventsPass
  | loadfile | subAdd | audioAdd =>
    exact agreeOnQueue_of_stepOk (by simp [Block.body, runCommand, stepOk])

theorem Alike.runOnQueue {s t : State} (h : Alike s t) {p : Core Bool}
    (hp : Agree (State.performOnQueue env calls) (State.performOnQueue env calls) Alike p) :
    Alike (s.runOnQueue env calls p) (t.runOnQueue env calls p) := by
  obtain ⟨hvalue, hstate⟩ := hp s t h
  simp only [State.runOnQueue, hvalue]
  exact hstate.map (fun s => { s with again := _ }) (fun _ => rfl) fun _ => rfl

theorem serve_of_again {s : State} (h : s.again = true) :
    s.serve env calls = s.runOnQueue env calls readEventsPass := by
  simp [State.serve, h]

theorem serve_of_nil {s : State} (h : s.again = false) (hb : s.blocks = []) :
    s.serve env calls = s := by
  simp [State.serve, h, hb]

theorem serve_of_cons {s : State} (h : s.again = false) {b : Block} {blocks : List Block}
    (hb : s.blocks = b :: blocks) :
    s.serve env calls = { s with blocks := blocks }.runOnQueue env calls b.body := by
  simp [State.serve, h, hb]

theorem Alike.serve {s t : State} (h : Alike s t) :
    Alike (s.serve env calls) (t.serve env calls) := by
  have hagain : s.again = t.again := h.congr (State.again ·) fun _ => rfl
  have hblocks : s.blocks = t.blocks := h.congr (State.blocks ·) fun _ => rfl
  cases hs : s.again with
  | true =>
    rw [serve_of_again hs, serve_of_again (hagain ▸ hs)]
    exact h.runOnQueue agree_readEventsPass
  | false =>
    cases hb : s.blocks with
    | nil =>
      rw [serve_of_nil hs hb, serve_of_nil (hagain ▸ hs) (hblocks ▸ hb)]
      exact h
    | cons b blocks =>
      rw [serve_of_cons hs hb, serve_of_cons (hagain ▸ hs) (hblocks ▸ hb)]
      have hrest := h.map (fun s => { s with blocks := blocks }) (fun _ => rfl) fun _ => rfl
      exact hrest.runOnQueue (agree_body b)

end Queue

theorem Alike.wakeup {s t : State} (h : Alike s t) :
    Alike (run (State.perform env) Core.wakeup s).2 (run (State.perform env) Core.wakeup t).2 :=
  (agree_of_stepOk env (by simp [Core.wakeup, readEvents, stepOk]) s t h).2

theorem Alike.wakeupClient {s t : State} (h : Alike s t) :
    Alike (s.wakeupClient env) (t.wakeupClient env) := by
  have hevents : s.events = t.events := h.congr (State.events ·) fun _ => rfl
  have hregistered : s.registered = t.registered := h.congr (State.registered ·) fun _ => rfl
  have hneed : Alike s.setNeedWakeup t.setNeedWakeup :=
    h.map State.setNeedWakeup (fun _ => rfl) fun _ => rfl
  simp only [State.wakeupClient, hevents, hregistered]
  split
  · exact h
  split
  · exact hneed.wakeup
  · exact hneed

theorem Alike.post {s t : State} (h : Alike s t) (e : Event) :
    Alike (s.post env e) (t.post env e) := by
  have hevents : s.events = t.events := h.congr (State.events ·) fun _ => rfl
  cases hs : s.events.append e with
  | mk events woken =>
    have ht : t.events.append e = (events, woken) := hevents ▸ hs
    have hposted := h.map (fun s => { s with events := events }) (fun _ => rfl) fun _ => rfl
    cases woken with
    | true => simpa only [State.post, hs, ht] using hposted.wakeupClient
    | false => simpa only [State.post, hs, ht] using hposted

theorem Alike.next {s t : State} (h : Alike s t) (l : Label) :
    Alike (s.next env l) (t.next env l) := by
  have hstep := h.map (fun s => { s with step := s.step + 1 }) (fun _ => rfl) fun _ => rfl
  cases l with
  | call c => exact hstep.call c
  | post e => exact hstep.post e
  | wake => exact hstep.wakeupClient
  | serve calls => exact hstep.serve

theorem Alike.run {s t : State} (h : Alike s t) (ls : List Label) :
    Alike (ls.foldl (State.next env) s) (ls.foldl (State.next env) t) := by
  induction ls generalizing s t with
  | nil => exact h
  | cons l ls ih => exact ih (h.next l)

/-- A session in which nothing that is seen is left over. -/
theorem likeFresh_of_clear {o : Object} (hstop : o.isStopEvent = false)
    (hloaded : o.isLoaded = false) (hmanual : o.isManualStop = false) : LikeFresh o := by
  intro env h events ls
  apply Alike.observed
  apply Alike.run
  apply Alike.wakeup
  refine ⟨?_, fun _ => ⟨rfl, rfl⟩, fun _ => ⟨rfl, rfl⟩⟩
  simp [State.forget, hstop, hloaded, hmanual]

/-! ## Sessions that differ -/

/-- Nothing is known about mpv's answers. -/
def Env.plain : Env := ⟨fun _ => Session.Answer.api {}, fun _ _ => none, fun _ => 0⟩

/-- A property that is set does not reach mpv. -/
theorem isStopEvent_of_likeFresh {o : Object} (h : LikeFresh o) : o.isStopEvent = false := by
  by_contra hstop
  have hset : o.isStopEvent = true := by simpa using hstop
  have hsame := congrArg (fun s => s.received.length)
    (h .plain 1 {} [.call (.setter (.setIsMute true))])
  simp [session, State.initView, State.next, State.call, State.observed, Core.wakeup, readEvents,
    Call.body, Setter.body, Core.setIsMute, Core.setParameterString, Core.setParameter,
    State.perform, State.invoke, Object.get, hset] at hsame

/-- `play` reaches mpv before an item is loaded. -/
theorem isLoaded_of_likeFresh {o : Object} (h : LikeFresh o) (hstop : o.isStopEvent = false) :
    o.isLoaded = false := by
  by_contra hloaded
  have hset : o.isLoaded = true := by simpa using hloaded
  have hsame := congrArg (fun s => s.received.length) (h .plain 1 {} [.call .play])
  simp [session, State.initView, State.next, State.call, State.observed, Core.wakeup, readEvents,
    Call.body, Core.play, setPause, State.perform, State.invoke, Object.get, hset, hstop] at hsame

/-- The end of a file is not reported. -/
theorem isManualStop_of_likeFresh {o : Object} (h : LikeFresh o) (hstop : o.isStopEvent = false)
    (hloaded : o.isLoaded = false) : o.isManualStop = false := by
  by_contra hmanual
  have hset : o.isManualStop = true := by simpa using hmanual
  have hsame := congrArg (fun s => s.sent.length)
    (h .plain 1 {} [.post ⟨.endFile, .none⟩, .serve []])
  simp [session, State.initView, State.next, State.post, State.wakeupClient, State.setNeedWakeup,
    State.serve, State.runOnQueue, State.performOnQueue, State.observed, EventQueue.append,
    EventQueue.maxEvents, EventQueue.next, Core.wakeup, readEvents, Block.body, readEventsPass,
    handleEvent, runCoreEvent, State.perform, State.invoke, Object.get, Object.set, hset, hstop,
    hloaded] at hsame

/-- A session of the object is like the first one of a fresh object exactly if the flags
    that are seen are as in a fresh object. -/
theorem likeFresh_iff (o : Object) :
    LikeFresh o ↔ o.isStopEvent = false ∧ o.isLoaded = false ∧ o.isManualStop = false := by
  constructor
  · intro h
    have hstop := isStopEvent_of_likeFresh h
    have hloaded := isLoaded_of_likeFresh h hstop
    exact ⟨hstop, hloaded, isManualStop_of_likeFresh h hstop hloaded⟩
  · rintro ⟨hstop, hloaded, hmanual⟩
    exact likeFresh_of_clear hstop hloaded hmanual

/-- The session is over, and the queue has nothing left to do. -/
def drained (s : Session.State) : Bool :=
  s.obj.mpv.isNone && s.queue.isEmpty && s.program .queue matches .ret false

/-- `shutDown` leaves `isStopEvent` set for the next session. -/
theorem not_likeFresh_after_shutDown :
    ¬ ∀ s, Session.session.Reachable s → drained s = true → LikeFresh s.obj := by
  intro h
  obtain ⟨s, hs, hend⟩ := Machine.Reachable.exec_any
    (.init ⟨1, {}, rfl⟩ : Session.session.Reachable (.afterInitView 1 {}))
    (Session.takes 4 ++ Session.calls 0 .shutDown 12)
    (p := fun s => drained s && s.obj.isStopEvent) (by decide +kernel)
  obtain ⟨hdrained, hstop⟩ := (Bool.and_eq_true _ _).mp hend
  rw [isStopEvent_of_likeFresh (h s hs hdrained)] at hstop
  cases hstop

end Renewal
