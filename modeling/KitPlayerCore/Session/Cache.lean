-- SUMMARY: The counts of tracks that are returned for an item that is ready, against the track list that mpv has then.
import KitPlayerCore.Core.Effects
import KitPlayerCore.Core.Tracks
import KitPlayerCore.Transition.Machine
import Mathlib.Logic.Function.Basic

/-!
# The cache of tracks

`initTrackList` fills two arrays once, under the flag `isInitTrack`, and only the handler of
`MPV_EVENT_START_FILE` clears the flag again. The flag is set before anything was read, any
thread may find it cleared, and no one waits for a thread that fills the arrays.
-/

namespace Cache

open Core Mpv Transition Program

/-! ## Calls -/

/-- What a thread may run: the methods that have to do with tracks, `open`, and the wakeup
    callback. -/
inductive Method where
  | open
  | addSubtitle (str : NSString)
  | addAudio (str : NSString)
  | initTrackList
  | audioCount
  | subtitleCount
  | wakeup

/-- The method, with the count that it returns. It is `none` where `initTrackList` raises. -/
def Method.body : Method → Core (Option Nat)
  | .open => do Core.open; return none
  | .addSubtitle str => do Core.addSubtitle str; return none
  | .addAudio str => do Core.addAudio str; return none
  | .initTrackList => do let _ ← Core.initTrackList; return none
  | .audioCount => Core.audioCount
  | .subtitleCount => Core.subtitleCount
  | .wakeup => do Core.wakeup; return none

def trackCount (type : StreamType) (tracks : List TrackEntry) : Nat :=
  (tracks.filter (·.type = type)).length

/-- The count that the method is expected to return, if it is to return one. -/
def Method.expected (tracks : List TrackEntry) : Method → Option Nat
  | .audioCount => some (trackCount .audio tracks)
  | .subtitleCount => some (trackCount .sub tracks)
  | .open | .addSubtitle _ | .addAudio _ | .initTrackList | .wakeup => none

/-- What a call has returned, and what was expected of it. -/
structure Count where
  value : Option Nat
  expected : Nat
  deriving DecidableEq, Repr

/-- A thread, with what it has left of the method. -/
structure Slot where
  method : Method
  program : Core (Option Nat)

/-! ## States -/

/-- How far the current item is. -/
inductive Stage where
  /-- No item has started, or the `END_FILE` of the last one was handled. -/
  | idle
  /-- `START_FILE` was taken from mpv. -/
  | started
  /-- `isLoaded` was set. -/
  | loaded
  /-- `ReadyToPlay` was sent. -/
  | ready
  deriving DecidableEq, Repr

/-- How the arrays came about since the last `START_FILE`. -/
inductive Fill where
  /-- No call has found the flag cleared. -/
  | none
  /-- The thread `n` fills them from the track list `seen`. -/
  | running (n : Nat) (seen : List TrackEntry)
  /-- A call has filled them from the track list `seen`. -/
  | done (seen : List TrackEntry)
  /-- A call found the flag cleared before the item was loaded or while another one filled the
      arrays, or `START_FILE` was taken before it returned, or the track list changed, or a
      block that it was about to read was given to another thread. -/
  | disturbed
  deriving DecidableEq, Repr

/-- The state while the handle is live. -/
structure State where
  reader : Reader
  stage : Stage := .idle
  /-- The last event that the queue has taken from mpv. -/
  event : EventId := .none
  /-- The blocks that are pending, the next one first. -/
  queue : List Block := []
  /-- The last block that the queue has taken. -/
  block : Block := .readEvents
  worker : Core Bool := .ret false
  holder : Lock → Option Nat := fun _ => none
  /-- The threads. The calls that the delegate makes on the queue are those of thread 0. -/
  slot : Nat → Slot := fun _ => ⟨.open, .ret none⟩
  /-- The threads that have found the flag cleared, and have not returned. -/
  fillers : List Nat := []
  fill : Fill := .none
  /-- What was returned while the item was current. -/
  counted : List Count := []

inductive Label where
  /-- The thread `n` calls a method. -/
  | call (n : Nat) (m : Method)
  /-- The thread `n` goes on. -/
  | caller (n : Nat)
  /-- The block that the thread `n` is about to read was freed, and another thread is given
      it and writes `str`. -/
  | reuse (n : Nat) (str : CString)
  /-- The queue takes the next block. -/
  | take
  /-- The queue makes another pass of its loop. -/
  | again
  /-- The queue goes on. `mpv_wait_event` returns `e`. -/
  | work (e : Event)
  /-- The track list of mpv changes. -/
  | tracks (tracks : List TrackEntry)

/-- The item is loaded, and its `END_FILE` was not handled. -/
def Stage.isLoaded : Stage → Bool
  | .idle | .started => false
  | .loaded | .ready => true

/-- The block gives mpv a command that adds a track. -/
def addsTrack : Block → Bool
  | .subAdd _ | .audioAdd _ => true
  | .loadfile | .readEvents => false

namespace Fill

/-- The thread `n` finds the flag cleared. -/
def start (n : Nat) (seen : List TrackEntry) (isLoaded : Bool) : Fill → Fill
  | .none => if isLoaded then .running n seen else .disturbed
  | .running _ _ | .done _ | .disturbed => .disturbed

/-- The call of the thread `n` returns. -/
def finish (n : Nat) : Fill → Fill
  | .running m seen => if m = n then .done seen else .running m seen
  | fill => fill

def disturb : Fill → Fill
  | .running _ _ => .disturbed
  | fill => fill

end Fill

namespace State

/-- A command that adds a track is pending. -/
def pending (s : State) : Bool :=
  s.queue.any addsTrack || !s.worker.done && addsTrack s.block

/-- What is returned now should be up to date. -/
def current (s : State) : Bool :=
  s.stage = .ready && !s.reader.obj.isStopEvent && !s.pending

/-- The thread `n` reads the flag. -/
def test (s : State) (n : Nat) : State :=
  if s.reader.obj.isInitTrack then s
  else
    { s with
      fillers := n :: s.fillers
      fill := s.fill.start n s.reader.tracks s.stage.isLoaded }

/-- The effect of an operation on the thread `n`. A lock that is held blocks. -/
def perform (s : State) (n : Nat) : (op : Op) → Option (op.Res × State)
  | .get .isInitTrack => some (s.reader.obj.isInitTrack, s.test n)
  | .lock l =>
    if s.holder l = none then
      some ((), { s with holder := Function.update s.holder l (some n) })
    else none
  | .unlock l => some ((), { s with holder := Function.update s.holder l none })
  | .dispatch b => some ((), { s with queue := s.queue ++ [b] })
  | op =>
    some ((Reader.perform .none op s.reader).1,
      { s with reader := (Reader.perform .none op s.reader).2 })

/-- What is recorded when the call of the thread `n` returns `value`. -/
def finish (s : State) (n : Nat) (value : Option Nat) : State :=
  { s with
    fillers := s.fillers.filter (· ≠ n)
    fill := s.fill.finish n
    counted :=
      if s.current then
        s.counted ++ (((s.slot n).method.expected s.reader.tracks).map (Count.mk value)).toList
      else s.counted }

/-- The thread `n` is to go on with `p`. -/
def goto (s : State) (n : Nat) (p : Core (Option Nat)) : State :=
  { s with slot := Function.update s.slot n { s.slot n with program := p } }

def resume (s : State) (n : Nat) : Core (Option Nat) → State
  | .ret value => (s.finish n value).goto n (.ret value)
  | .act op k => s.goto n (.act op k)

def runCaller (s : State) (n : Nat) : Option State :=
  match (s.slot n).program with
  | .ret _ => none
  | .act op k => (s.perform n op).map fun t => t.2.resume n (k t.1)

/-- What the queue is answered. -/
def answer (s : State) (e : Event) : (op : Op) → op.Res × Reader
  | .call _ .waitEvent => (e, s.reader)
  | op => Reader.perform .none op s.reader

/-- What is recorded of an operation of the queue. -/
def observe (s : State) (e : Event) : Op → State
  | .call _ .waitEvent =>
    if e.eventId = .startFile then
      { s with
        event := e.eventId
        stage := .started
        fill := if s.fillers = [] then .none else .disturbed }
    else { s with event := e.eventId }
  | .set .isLoaded true => if s.stage = .started then { s with stage := .loaded } else s
  | .deliver .readyToPlay => if s.stage = .loaded then { s with stage := .ready } else s
  | _ => s

/-- The queue is to go on with `p`. `END_FILE` is handled where the pass ends. -/
def turn (s : State) (p : Core Bool) : State :=
  { s with
    worker := p
    stage := if p.done && s.event = .endFile then .idle else s.stage }

def runWorker (s : State) (e : Event) : Option State :=
  match s.worker with
  | .ret _ => none
  -- the delegate returns after its calls
  | .act .inDelegate k => if (s.slot 0).program.done then some (s.turn (k ())) else none
  | .act op k =>
    some ({ s.observe e op with reader := (s.answer e op).2 }.turn (k (s.answer e op).1))

/-- The thread `n` may call a method. -/
def free (s : State) (n : Nat) : Bool :=
  (s.slot n).program.done && (n ≠ 0 || match s.worker with
    | .act .inDelegate _ => true
    | _ => false)

end State

def step (s : State) : Label → Option State
  | .call n m =>
    if s.free n then some { s with slot := Function.update s.slot n ⟨m, m.body⟩ } else none
  | .caller n => s.runCaller n
  | .reuse n str =>
    match (s.slot n).program with
    | .act (.initWithCString p) _ =>
      some { s with
        reader := { s.reader with heap := s.reader.heap.set p (.released str) }
        fill := s.fill.disturb }
    | _ => none
  | .take =>
    match s.worker, s.queue with
    | .ret false, b :: queue => some { s with queue := queue, block := b, worker := b.body }
    | _, _ => none
  | .again =>
    match s.worker with
    | .ret true => some { s with worker := readEventsPass }
    | _ => none
  | .work e => s.runWorker e
  | .tracks tracks =>
    some { s with reader := { s.reader with tracks := tracks }, fill := s.fill.disturb }

/-- Right after a successful `initView` that made the handle `h`. -/
def State.afterInitView (h : Handle) (o : Object) (tracks : List TrackEntry) : State where
  reader := { obj := { o with mpv := some h }, tracks := tracks }
  queue := registered o

def cache : Machine State Label where
  init s := ∃ h o tracks, s = .afterInitView h o tracks
  step := step

/-! ## Where a count may be returned -/

/-- The strings of the tracks are UTF-8, and their number fits an `int`. -/
def Valid (tracks : List TrackEntry) : Prop :=
  tracks.length < 2 ^ 31 ∧ ∀ t ∈ tracks, ValidStrings t

/-- What the thread `n` returns was read from the track list that mpv has now, as far as the
    count goes: by the call itself, or by an earlier one, which nothing has disturbed. -/
def State.Fresh (s : State) (n : Nat) : Prop :=
  match s.fill with
  | .running m seen => m = n ∧ Valid seen
  | .done seen =>
    Valid seen ∧ (s.slot n).method.expected s.reader.tracks = (s.slot n).method.expected seen
  | .none | .disturbed => False

/-- Where a count is returned for the current item, it is fresh. -/
def Settled (s : State) : Label → Prop
  | .caller n => ∀ t, step s (.caller n) = some t → t.counted ≠ s.counted → s.Fresh n
  | _ => True

/-! ## The code of the threads -/

/-- The method asks for the tracks. -/
def Method.Counts : Method → Prop
  | .initTrackList | .audioCount | .subtitleCount => True
  | .open | .addSubtitle _ | .addAudio _ | .wakeup => False

/-- What is left of the method when `initTrackList` has found the flag set. -/
def Method.rest : Method → Core (Option Nat)
  | .audioCount => do return some (← get .audioArray).length
  | .subtitleCount => do return some (← get .subArray).length
  | .open | .addSubtitle _ | .addAudio _ | .initTrackList | .wakeup => return none

theorem Method.body_of_counts {m : Method} (hm : m.Counts) :
    ∃ k, m.body = .act (.get .isInitTrack) k ∧ k true = m.rest ∧ (k false).done = false := by
  cases m with
  | «open» | addSubtitle | addAudio | wakeup => exact hm.elim
  | initTrackList | audioCount | subtitleCount => exact ⟨_, rfl, rfl, rfl⟩

theorem Method.body_trackOk {m : Method} (hm : m.Counts) : Only trackOk m.body := by
  cases m with
  | «open» | addSubtitle | addAudio | wakeup => exact hm.elim
  | initTrackList => exact initTrackList_trackOk.bind fun _ => trivial
  | audioCount | subtitleCount =>
    refine initTrackList_trackOk.bind fun ok => ?_
    cases ok <;> simp [trackOk]

/-- What the methods do that do not ask for the tracks. -/
def callOk : Op → Prop
  | .get v => v ≠ .isInitTrack
  | .set v _ => v = .isManualStop
  | .dispatch _ => True
  | _ => False

theorem Method.body_callOk {m : Method} (hm : ¬ m.Counts) : Only callOk m.body := by
  cases m with
  | initTrackList | audioCount | subtitleCount => exact absurd trivial hm
  | «open» =>
    have hopen : Only callOk Core.open := by simp [Core.open, callOk]
    exact hopen.bind fun _ => trivial
  | addSubtitle str =>
    have hadd : Only callOk (Core.addSubtitle str) := by simp [Core.addSubtitle, callOk]
    exact hadd.bind fun _ => trivial
  | addAudio str =>
    have hadd : Only callOk (Core.addAudio str) := by simp [Core.addAudio, callOk]
    exact hadd.bind fun _ => trivial
  | wakeup =>
    have hwakeup : Only callOk Core.wakeup := by simp [Core.wakeup, readEvents, callOk]
    exact hwakeup.bind fun _ => trivial

/-- What a thread has left that does not fill the arrays. -/
inductive Quiet (m : Method) : Core (Option Nat) → Prop where
  | returned (value : Option Nat) : Quiet m (.ret value)
  | called : m.Counts → Quiet m m.body
  | tested : Quiet m m.rest
  | other {p : Core (Option Nat)} : ¬ m.Counts → Only callOk p → Quiet m p

theorem quiet_body (m : Method) : Quiet m m.body := by
  by_cases hm : m.Counts
  · exact .called hm
  · exact .other hm (Method.body_callOk hm)

/-! ## The code of the queue -/

/-- The handler of `START_FILE` assigns such a value to the variable. -/
def Clears : (v : Ivar) → v.type → Prop
  | .isStopEvent, x | .isInitTrack, x => x = false
  | .subArray, x | .audioArray, x => x = []
  | _, _ => True

/-- The variables that the handler of `START_FILE` clears, as far as the cache depends on
    them. -/
def resets : List Ivar := [.isStopEvent, .isInitTrack, .subArray, .audioArray]

/-- The rules of the queue, in modes that say what is yet to be cleared. -/
@[simp] def workRules : Rules Op Op.Res (List Ivar) where
  ok
    | [], .set .isLoaded x => x = true
    | [], .set v _ => v = .isError
    | [], .call _ f => f = .waitEvent ∨ ∃ args, f = .command args
    | [], .get _ | [], .deliver _ | [], .inDelegate => True
    | _ :: _, .set .isLoaded x => x = false
    | _ :: _, .set v x => v ≠ .mpv ∧ Clears v x
    | _, _ => False
  admits _ _ _ := True
  next
    | left, .set v _, _, left' => left' = left.erase v
    | [], .call _ .waitEvent, e, left' => left' = if e.eventId = .startFile then resets else []
    | left, _, _, left' => left' = left

/-- What the queue has left of a pass clears what is yet to be cleared. -/
def Works (left : List Ivar) (p : Core Bool) : Prop :=
  Safe workRules p (fun _ left => left = []) left

theorem works_readEventsPass : Works [] readEventsPass := by
  have hevent (e : Event) : Works (if e.eventId = .startFile then resets else [])
      (handleEvent e >>= fun _ => .ret true) := by
    by_cases he : e.eventId = .startFile
    · simp [Works, handleEvent, he, resets, Clears]
    · rw [if_neg he]
      simp only [Works, handleEvent, runCoreEvent]
      split
      case h_5 hstart => exact absurd hstart he
      all_goals simp
  simp [Works, readEventsPass]
  intro _ _ _ e
  refine ⟨fun hnone hstart => ?_, fun _ => (safe_bind _ _ _).mp (hevent e)⟩
  rw [hnone] at hstart
  cases hstart

theorem works_body (b : Block) : Works [] b.body := by
  cases b with
  | readEvents => exact works_readEventsPass
  | loadfile | subAdd | audioAdd => simp [Works, Block.body, runCommand]

/-! ## Filling the arrays -/

/-- The arrays hold as many tracks as there are. -/
def Holds (o : Object) (seen : List TrackEntry) : Prop :=
  o.audioArray.length = trackCount .audio seen ∧ o.subArray.length = trackCount .sub seen

/-- If nothing comes in between, the program returns the count that is expected of the
    method, and the arrays hold the tracks then. -/
def Fills (s : Reader) (m : Method) (p : Core (Option Nat)) (seen : List TrackEntry) : Prop :=
  (p.run (Reader.perform .none) s).1 = m.expected seen ∧
    Holds (p.run (Reader.perform .none) s).2.obj seen

theorem length_dictionaries (type : StreamType) (tracks : List TrackEntry) :
    (dictionaries type tracks).length = trackCount type tracks := by
  rw [dictionaries, List.length_map, trackCount]

/-- What is returned when the arrays hold the tracks. -/
theorem fills_rest {s : Reader} {seen : List TrackEntry} (m : Method) (h : Holds s.obj seen) :
    Fills s m m.rest seen := by
  cases m with
  | audioCount => exact ⟨congrArg some h.1, h⟩
  | subtitleCount => exact ⟨congrArg some h.2, h⟩
  | «open» | addSubtitle | addAudio | initTrackList | wakeup => exact ⟨rfl, h⟩

/-- The first call for an item fills the arrays. -/
theorem fills_body {s : Reader} (hs : Loaded s.obj) (htracks : Valid s.tracks) {m : Method}
    (hm : m.Counts) : Fills s m m.body s.tracks := by
  obtain ⟨t, hrun, haudio, hsub⟩ := run_initTrackList_none hs htracks.2 htracks.1
  have hholds : Holds t.obj s.tracks := by
    rw [Holds, haudio, hsub]
    exact ⟨length_dictionaries _ _, length_dictionaries _ _⟩
  obtain ⟨f, hbody, hrest⟩ : ∃ f, m.body = Core.initTrackList >>= f ∧ f true = m.rest := by
    cases m with
    | «open» | addSubtitle | addAudio | wakeup => exact hm.elim
    | initTrackList | audioCount | subtitleCount => exact ⟨_, rfl, rfl⟩
  rw [Fills, hbody, run_bind, hrun, hrest]
  exact fills_rest m hholds

/-- The states look alike to a call that fills the arrays. -/
structure Alike (s t : Reader) : Prop where
  mpv : s.obj.mpv = t.obj.mpv
  isLoaded : s.obj.isLoaded = t.obj.isLoaded
  isStopEvent : s.obj.isStopEvent = t.obj.isStopEvent
  isInitTrack : s.obj.isInitTrack = t.obj.isInitTrack
  subArray : s.obj.subArray = t.obj.subArray
  audioArray : s.obj.audioArray = t.obj.audioArray
  tracks : s.tracks = t.tracks
  heap : s.heap = t.heap

/-- An operation of a call that fills the arrays is answered alike. -/
theorem Alike.perform {s t : Reader} (h : Alike s t) {op : Op} (hop : trackOk op) :
    (Reader.perform .none op s).1 = (Reader.perform .none op t).1 ∧
      Alike (Reader.perform .none op s).2 (Reader.perform .none op t).2 := by
  cases op with
  | get v =>
    refine ⟨?_, h⟩
    cases v
    case mpv => exact h.mpv
    case isLoaded => exact h.isLoaded
    case isStopEvent => exact h.isStopEvent
    case isInitTrack => exact h.isInitTrack
    case subArray => exact h.subArray
    case audioArray => exact h.audioArray
    all_goals simp [trackOk, readOk] at hop
  | set v x =>
    refine ⟨rfl, ?_⟩
    cases v
    case isInitTrack => exact { h with isInitTrack := rfl }
    case subArray => exact { h with subArray := rfl }
    case audioArray => exact { h with audioArray := rfl }
    all_goals exact hop.elim
  | call hd f =>
    cases f with
    | getProperty name format =>
      cases hd with
      | none => exact ⟨rfl, h⟩
      | some hd =>
        cases format with
        | string =>
          simp only [Reader.perform, h.tracks]
          split
          · have hlength : s.heap.length = t.heap.length := congrArg List.length h.heap
            exact ⟨congrArg Except.ok hlength,
              { h with tracks := rfl, heap := congrArg (· ++ _) h.heap }⟩
          · exact ⟨rfl, { h with }⟩
        | flag | int64 | double => exact ⟨rfl, h⟩
    | setOptionString | command | setProperty | waitEvent | clearWakeupCallback
    | detachDestroy => exact hop.elim
  | free p => exact ⟨rfl, { h with heap := congrArg (·.modify p Cell.release) h.heap }⟩
  | initWithCString p =>
    simp only [Reader.perform, h.heap]
    split
    · exact ⟨rfl, h⟩
    · exact ⟨rfl, { h with heap := rfl }⟩
    · exact ⟨rfl, h⟩
  | lock | unlock | uninitialized => exact ⟨rfl, h⟩
  | glCall | dispatch | deliver | inDelegate => exact hop.elim

theorem Fills.alike {s t : Reader} (h : Alike s t) {m : Method} {p : Core (Option Nat)}
    (hp : Only trackOk p) {seen : List TrackEntry} (hs : Fills s m p seen) : Fills t m p seen := by
  have hagree : Agree (Reader.perform .none) (Reader.perform .none) Alike p :=
    hp.agree fun op s t hop h => h.perform hop
  obtain ⟨hvalue, hstate⟩ := hagree s t h
  obtain ⟨hcount, haudio, hsub⟩ := hs
  exact ⟨hvalue ▸ hcount, hstate.audioArray ▸ haudio, hstate.subArray ▸ hsub⟩

end Cache
