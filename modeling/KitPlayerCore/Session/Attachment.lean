-- SUMMARY: Tracks that are added after `open`, and the item to whose track list mpv adds them.
import KitPlayerCore.Core.Effects
import KitPlayerCore.Mpv.Playback
import KitPlayerCore.Session.Machine

/-!
# Attachments

`open`, `addSubtitle:` and `addAudio:` dispatch one block each, so the commands come in the
order of the calls. `loadfile` returns before mpv has started the new entry, and until then
`stop_play` is set, with which `sub-add` and `audio-add` fail.
-/

namespace Attachment

open Core Mpv Transition Program

/-- What became of a `sub-add` or `audio-add` command: the item whose track list it has
    added the file to, if any. -/
structure Result where
  command : List CString
  item : Option Nat
  deriving DecidableEq, Repr

/-- What the queue is at. A command that adds a track runs on a thread of its own, and
    `mpv_command` returns when it is over. -/
inductive Worker where
  | run (p : Core Bool)
  /-- The command was given, and may have been cancelled since. -/
  | issued (command : List CString) (cancelled : Bool) (k : Int → Core Bool)
  /-- In `demux_open_url`, without the lock of the core. -/
  | opening (command : List CString) (cancelled : Bool) (k : Int → Core Bool)

/-- The state while the handle is live. The item that is opened is named 1, and one that
    is there before is named 0. -/
structure State where
  obj : Object
  core : Playback Nat
  /-- `playback_abort` is triggered. -/
  aborted : Bool
  /-- The blocks that are pending, the next one first. -/
  queue : List Block := []
  /-- What the caller has left of a method. -/
  caller : Core Unit := .ret ()
  worker : Worker := .run (.ret false)
  /-- `open` was called. -/
  opened : Bool := false
  /-- mpv has executed the `loadfile` command. -/
  loaded : Bool := false
  results : List Result := []
  /-- The commands that the calls of `addSubtitle:` and `addAudio:` are for. -/
  added : List (List CString) := []

inductive Label where
  | open
  | addSubtitle (str : NSString)
  | addAudio (str : NSString)
  /-- The caller goes on. -/
  | caller
  /-- The wakeup callback dispatches a block. -/
  | wakeup
  /-- The queue takes the next block. -/
  | take
  /-- The queue makes another pass of its loop. -/
  | again
  /-- The queue goes on. `mpv_wait_event` returns `e`. -/
  | work (e : Event)
  /-- `cmd_track_add` gets the lock of the core. -/
  | start
  /-- `cmd_track_add` has opened the file and gets the lock again. -/
  | finish
  /-- mpv's core takes a step of its own. -/
  | core (l : PlaybackLabel Nat)

/-- The command is `sub-add` or `audio-add`. -/
def isTrackAdd (command : List CString) : Bool :=
  command.head? = some (cstr "sub-add") ∨ command.head? = some (cstr "audio-add")

/-- `mp_abort_playback_async` cancels the command. -/
def Worker.cancel : Worker → Worker
  | .run p => .run p
  | .issued command _ k => .issued command true k
  | .opening command _ k => .opening command true k

namespace State

/-- The effect of an operation, other than a command. The delegate makes no calls. -/
def perform (s : State) (e : Event) : (op : Op) → op.Res × State
  | .get v => (s.obj.get v, s)
  | .set v x => ((), { s with obj := s.obj.set v x })
  | .call _ f => (Session.Answer.api { event := e } f, s)
  | .dispatch b => ((), { s with queue := s.queue ++ [b] })
  | .initWithCString _ => (none, s)
  | .uninitialized => (0, s)
  | .lock _ | .unlock _ | .glCall _ | .free _ | .deliver _ | .inDelegate => ((), s)

/-- The queue gives mpv a command. -/
def command (s : State) (command : List CString) (k : Int → Core Bool) : State :=
  if isTrackAdd command then { s with worker := .issued command s.aborted k }
  else if command.head? = some (cstr "loadfile") then
    { s with core := s.core.loadfile 1, loaded := true, worker := .run (k 0) }
  else { s with worker := .run (k 0) }

/-- `cmd_track_add` is over. -/
def complete (s : State) (command : List CString) (item : Option Nat) (k : Int → Core Bool) :
    State :=
  { s with
    results := s.results ++ [⟨command, item⟩]
    -- MPV_ERROR_COMMAND
    worker := .run (k (if item.isSome then 0 else -12)) }

/-- A command that adds a track does not go on. -/
def Fails (s : State) (cancelled : Bool) : Prop :=
  s.core.stopPlay ≠ .keepPlaying ∨ cancelled = true

instance (s : State) (cancelled : Bool) : Decidable (s.Fails cancelled) :=
  inferInstanceAs (Decidable (_ ∨ _))

def runCore (s : State) : PlaybackLabel Nat → Option State
  | .startFile => s.core.startFile.map fun core => { s with core, aborted := false }
  | .finish reason => (s.core.finish reason).map fun core => { s with core }
  | .endFile next => (s.core.endFile next).map fun core =>
    { s with core, aborted := true, worker := s.worker.cancel }
  | .loadfile _ | .stop | .other => none

/-- The caller calls a method. -/
def begin (s : State) (p : Core Unit) : Option State :=
  match s.caller with
  | .ret _ => some { s with caller := p }
  | .act _ _ => none

/-- The caller calls a method that adds a track with the command of `b`. -/
def add (s : State) (p : Core Unit) (b : Block) : Option State :=
  { s with added := s.added ++ [b.command none] }.begin p

end State

def step (s : State) : Label → Option State
  | .open => if s.opened then none else { s with opened := true }.begin Core.open
  | .addSubtitle str => if s.opened then s.add (Core.addSubtitle str) (.subAdd str) else none
  | .addAudio str => if s.opened then s.add (Core.addAudio str) (.audioAdd str) else none
  | .caller =>
    match s.caller with
    | .ret _ => none
    | .act op k =>
      some { (s.perform ⟨.none, .none⟩ op).2 with caller := k (s.perform ⟨.none, .none⟩ op).1 }
  | .wakeup => some { s with queue := s.queue ++ [.readEvents] }
  | .take =>
    match s.worker, s.queue with
    | .run (.ret false), b :: queue => some { s with queue := queue, worker := .run b.body }
    | _, _ => none
  | .again =>
    match s.worker with
    | .run (.ret true) => some { s with worker := .run readEventsPass }
    | _ => none
  | .work e =>
    match s.worker with
    | .run (.act (.call _ (.command command)) k) => some (s.command command k)
    | .run (.act op k) => some { (s.perform e op).2 with worker := .run (k (s.perform e op).1) }
    | _ => none
  | .start =>
    match s.worker with
    | .issued command cancelled k =>
      some (if s.Fails cancelled then s.complete command none k
        else { s with worker := .opening command cancelled k })
    | _ => none
  | .finish =>
    match s.worker with
    | .opening command cancelled k =>
      some (s.complete command (if s.Fails cancelled then none else s.core.playing) k)
    | _ => none
  | .core l => s.runCore l

/-- A URL is set, `open` is yet to be called, and mpv may be at anything. -/
def State.before (h : Handle) (o : Object) (url : NSString) (core : Playback Nat) (aborted : Bool)
    (pending : Nat) : State where
  obj := { o with mpv := some h, url := some url }
  core := core
  aborted := aborted
  queue := .replicate pending .readEvents

def attachments : Machine State Label where
  init s := ∃ h o url core aborted pending,
    (∀ i, core.current = some i ∨ core.playing = some i → i = 0) ∧
    s = .before h o url core aborted pending
  step := step

/-! ## Where mpv may be -/

/-- A command that adds a track gets the lock only when mpv has started to play, and was not
    cancelled, and while it opens the file mpv does not end what it plays. -/
def Ready (s : State) : Label → Prop
  | .start => ∀ command cancelled k, s.worker = .issued command cancelled k → ¬ s.Fails cancelled
  | .core (.finish _) => ∀ command cancelled k, s.worker ≠ .opening command cancelled k
  | _ => True

/-! ## The code of the caller and of the queue -/

/-- What the block of `readEvents` does. -/
def eventOk : Op → Prop
  | .get _ | .deliver _ | .inDelegate => True
  | .set v _ => v ≠ .mpv ∧ v ≠ .url
  | .call _ f => f = .waitEvent
  | _ => False

/-- What the blocks do. -/
def workOk : Op → Prop
  | .call _ (.command _) => True
  | op => eventOk op

theorem workOk_of_eventOk (op : Op) (h : eventOk op) : workOk op := by
  cases op with
  | call hd f => cases f <;> first | exact h | trivial
  | get | set | lock | unlock | glCall | free | initWithCString | uninitialized | dispatch
  | deliver | inDelegate => exact h

theorem readEventsPass_eventOk : Only eventOk readEventsPass := by
  have hevent (event : Event) :
      Only eventOk (handleEvent event >>= fun _ => (.ret true : Core Bool)) := by
    refine Only.bind ?_ fun _ => trivial
    simp only [handleEvent, runCoreEvent]
    split <;> simp [eventOk]
  simp [readEventsPass, eventOk]
  exact fun _ _ _ event _ => hevent event

theorem body_workOk (b : Block) : Only workOk b.body := by
  cases b with
  | readEvents => exact readEventsPass_eventOk.mono workOk_of_eventOk
  | loadfile | subAdd | audioAdd => simp [Block.body, runCommand, workOk, eventOk]

/-- What the worker has left keeps to what the blocks do. -/
def Worker.Works : Worker → Prop
  | .run p => Only workOk p
  | .issued _ _ k | .opening _ _ k => ∀ r, Only workOk (k r)

/-- The rules of the caller, in modes that say whether `open` has dispatched its block. -/
@[simp] def callRules : Rules Op Op.Res Bool where
  ok
    | _, .get _ => True
    | _, .set v _ => v = .isManualStop
    | false, .dispatch b => b = .loadfile
    | true, .dispatch _ => True
    | _, _ => False
  admits
    | _, .get .mpv, r => r ≠ none
    | _, .get .url, r => r ≠ none
    | _, _, _ => True
  next
    | _, .dispatch _, _, m' => m' = true
    | m, _, _, m' => m' = m

/-- What the caller has left of a method. `open` dispatches its block. -/
def Calls (m : Bool) (p : Core Unit) : Prop := Safe callRules p (fun _ m' => m' = true) m

theorem calls_open : Calls false Core.open := by
  simp [Calls, Core.open]

theorem calls_addSubtitle (str : NSString) : Calls true (Core.addSubtitle str) := by
  simp [Calls, Core.addSubtitle]

theorem calls_addAudio (str : NSString) : Calls true (Core.addAudio str) := by
  simp [Calls, Core.addAudio]

/-! ## The order of the blocks -/

/-- How far the block of `open` is: whether it was dispatched, whether its command was
    executed, and what the worker and the queue are then at. -/
inductive Phase : Bool → Bool → Worker → List Block → Prop where
  | before {p : Core Bool} {queue : List Block} :
    Only eventOk p → (∀ b ∈ queue, b = .readEvents) → Phase false false (.run p) queue
  | queued {p : Core Bool} {pre post : List Block} :
    Only eventOk p → (∀ b ∈ pre, b = .readEvents) →
    Phase true false (.run p) (pre ++ .loadfile :: post)
  | start {queue : List Block} : Phase true false (.run Block.loadfile.body) queue
  | read (url : Option NSString) {queue : List Block} :
    Phase true false (.run (runCommand (Block.loadfile.command url))) queue
  | call (h : Option Handle) (url : Option NSString) {queue : List Block} :
    Phase true false
      (.run (.act (.call h (.command (Block.loadfile.command url))) fun _ => .ret false)) queue
  | loaded {w : Worker} {queue : List Block} : w.Works → Phase true true w queue

theorem Phase.append {m loaded : Bool} {w : Worker} {queue : List Block}
    (h : Phase m loaded w queue) {b : Block} (hb : m = true ∨ b = .readEvents) :
    Phase m loaded w (queue ++ [b]) := by
  cases h with
  | before hp hqueue =>
    refine .before hp fun b' hb' => ?_
    rcases List.mem_append.mp hb' with hb' | hb'
    · exact hqueue b' hb'
    · exact List.mem_singleton.mp hb' ▸ hb.resolve_left nofun
  | queued hp hpre => simpa using .queued hp hpre
  | start => exact .start
  | read url => exact .read url
  | call h url => exact .call h url
  | loaded hw => exact .loaded hw

/-- `open` dispatches its block. -/
theorem Phase.open {loaded : Bool} {w : Worker} {queue : List Block}
    (h : Phase false loaded w queue) : Phase true loaded w (queue ++ [.loadfile]) := by
  cases h with
  | before hp hqueue => exact .queued hp hqueue

/-- The queue takes a block. -/
theorem Phase.take {m loaded : Bool} {b : Block} {queue : List Block}
    (h : Phase m loaded (.run (.ret false)) (b :: queue)) : Phase m loaded (.run b.body) queue := by
  generalize hw : Worker.run (.ret false) = w at h
  generalize hq : b :: queue = blocks at h
  cases h with
  | before hp hqueue =>
    subst hq
    obtain rfl := hqueue b List.mem_cons_self
    exact .before readEventsPass_eventOk fun b hb => hqueue b (List.mem_cons_of_mem _ hb)
  | @queued p pre post hp hpre =>
    cases pre with
    | nil =>
      obtain ⟨rfl, rfl⟩ := List.cons.inj hq
      exact .start
    | cons b' pre =>
      obtain ⟨rfl, rfl⟩ := List.cons.inj hq
      obtain rfl := hpre b List.mem_cons_self
      exact .queued readEventsPass_eventOk fun b hb => hpre b (List.mem_cons_of_mem _ hb)
  | start | read | call => cases hw
  | loaded => exact .loaded (body_workOk b)

/-- The queue makes another pass. -/
theorem Phase.again {m loaded : Bool} {queue : List Block}
    (h : Phase m loaded (.run (.ret true)) queue) : Phase m loaded (.run readEventsPass) queue := by
  generalize hw : Worker.run (.ret true) = w at h
  cases h with
  | before _ hqueue => exact .before readEventsPass_eventOk hqueue
  | queued _ hpre => exact .queued readEventsPass_eventOk hpre
  | start | read | call => cases hw
  | loaded => exact .loaded (body_workOk .readEvents)

/-- A command that adds a track is not for a file. -/
theorem isTrackAdd_loadfile (url : Option NSString) :
    isTrackAdd (Block.loadfile.command url) = false := by
  have hne : cstr "loadfile" ≠ cstr "sub-add" ∧ cstr "loadfile" ≠ cstr "audio-add" := by decide
  simp [isTrackAdd, Block.command, hne]

/-- What the worker may do, other than give a command, and where it is then. -/
theorem Phase.operation {m loaded : Bool} {op : Op} {k : op.Res → Core Bool} {queue : List Block}
    (h : Phase m loaded (.run (.act op k)) queue) (hcommand : ∀ hd c, op ≠ .call hd (.command c)) :
    workOk op ∧ ∀ r, Phase m loaded (.run (k r)) queue := by
  cases h with
  | before hp hqueue => exact ⟨workOk_of_eventOk _ hp.1, fun r => .before (hp.2 r) hqueue⟩
  | queued hp hpre => exact ⟨workOk_of_eventOk _ hp.1, fun r => .queued (hp.2 r) hpre⟩
  | start => exact ⟨trivial, fun url => .read url⟩
  | read url => exact ⟨trivial, fun h => .call h url⟩
  | call h url => exact absurd rfl (hcommand h _)
  | loaded hw => exact ⟨hw.1, fun r => .loaded (hw.2 r)⟩

/-- The first command is the one of `open`. -/
theorem Phase.command {m loaded : Bool} {h : Option Handle} {c : List CString}
    {k : Int → Core Bool} {queue : List Block}
    (hp : Phase m loaded (.run (.act (.call h (.command c)) k)) queue) :
    m = true ∧ (∀ r, Only workOk (k r)) ∧
      (loaded = true ∨ ∃ url, c = Block.loadfile.command url) := by
  generalize hw : Worker.run (.act (.call h (.command c)) k) = w at hp
  cases hp with
  | before hp | queued hp =>
    cases hw
    cases hp.1
  | start | read => cases hw
  | call h url =>
    cases hw
    exact ⟨rfl, fun _ => trivial, .inr ⟨url, rfl⟩⟩
  | loaded hp =>
    cases hw
    exact ⟨rfl, hp.2, .inl rfl⟩

/-! ## What mpv plays -/

/-- Nothing but the item that was opened is up next, or is played with no end in sight. -/
structure Plays (p : Playback Nat) : Prop where
  current : ∀ i, p.current = some i → i = 1
  playing : p.stopPlay = .keepPlaying → p.playing = some 1

theorem plays_loadfile (p : Playback Nat) : Plays (p.loadfile 1) where
  current i hi := by
    obtain rfl : 1 = i := Option.some.inj hi
    rfl
  playing hkeep := by
    simp only [Playback.loadfile] at hkeep
    split at hkeep <;> cases hkeep

theorem Plays.startFile {p p' : Playback Nat} (h : Plays p) (hs : p.startFile = some p') :
    Plays p' := by
  obtain ⟨-, hcurrent, -, rfl⟩ := Playback.startFile_cases hs
  obtain ⟨i, hi⟩ := Option.ne_none_iff_exists'.mp hcurrent
  exact ⟨h.current, fun _ => h.current i hi ▸ hi⟩

theorem Plays.finish {p p' : Playback Nat} {reason : StopPlay} (h : Plays p)
    (hs : p.finish reason = some p') : Plays p' := by
  obtain ⟨-, hkeep, -, rfl⟩ := Playback.finish_cases hs
  exact ⟨h.current, fun _ => h.playing hkeep⟩

theorem Plays.endFile {p p' : Playback Nat} {next : Bool} (h : Plays p)
    (hs : p.endFile next = some p') : Plays p' := by
  obtain ⟨-, -, -, hcurrent, hstop⟩ := Playback.endFile_cases hs
  constructor
  · intro i hi
    rcases hcurrent with hcurrent | hcurrent <;> rw [hcurrent] at hi
    · exact h.current i hi
    · cases hi
  · intro hkeep
    rcases hstop with hstop | ⟨-, hstop⟩ <;> rw [hstop] at hkeep <;> cases hkeep

/-! ## Runs -/

structure Ordered (s : State) : Prop where
  mpv : s.obj.mpv ≠ none
  url : s.obj.url ≠ none
  phase : ∃ m, Phase m s.loaded s.worker s.queue ∧
    (m = false ∧ s.opened = false ∧ s.caller = .ret () ∨ s.opened = true ∧ Calls m s.caller)
  plays : s.loaded = true → Plays s.core
  results : ∀ r ∈ s.results, r.item = none ∨ r.item = some 1

theorem Ordered.before (h : Handle) (o : Object) (url : NSString) (core : Playback Nat)
    (aborted : Bool) (pending : Nat) : Ordered (.before h o url core aborted pending) where
  mpv := nofun
  url := nofun
  phase := ⟨false, .before trivial fun _ => List.eq_of_mem_replicate, .inl ⟨rfl, rfl, rfl⟩⟩
  plays := nofun
  results := nofun

/-- A call that is made when the one before has returned. -/
theorem Ordered.add {s s' : State} (h : Ordered s) {p : Core Unit} {b : Block}
    (hopened : s.opened = true) (hp : Calls true p) (hs : s.add p b = some s') : Ordered s' := by
  obtain ⟨m, hphase, ⟨-, hclosed, -⟩ | ⟨-, hcalls⟩⟩ := h.phase
  · rw [hopened] at hclosed
    cases hclosed
  simp only [State.add, State.begin] at hs
  split at hs
  · rename_i u hcaller
    cases hs
    rw [hcaller] at hcalls
    obtain rfl : m = true := hcalls
    exact ⟨h.mpv, h.url, ⟨true, hphase, .inr ⟨hopened, hp⟩⟩, h.plays, h.results⟩
  · cases hs

theorem Ordered.open {s s' : State} (h : Ordered s) (hs : step s .open = some s') :
    Ordered s' := by
  simp only [step] at hs
  split at hs
  · cases hs
  · rename_i hclosed
    obtain ⟨m, hphase, ⟨rfl, -, hcaller⟩ | ⟨hopened, -⟩⟩ := h.phase
    · simp only [State.begin, hcaller, Option.some.injEq] at hs
      subst hs
      exact ⟨h.mpv, h.url, ⟨false, hphase, .inr ⟨rfl, calls_open⟩⟩, h.plays, h.results⟩
    · exact absurd hopened hclosed

theorem Ordered.runCaller {s s' : State} (h : Ordered s) (hs : step s .caller = some s') :
    Ordered s' := by
  simp only [step] at hs
  split at hs
  · cases hs
  · rename_i op k hcaller
    cases hs
    obtain ⟨m, hphase, ⟨-, -, hret⟩ | ⟨hopened, hcalls⟩⟩ := h.phase
    · rw [hcaller] at hret
      cases hret
    rw [hcaller] at hcalls
    obtain ⟨hok, hrest⟩ := hcalls
    have hkeep (r : op.Res) (hr : callRules.admits m op r) (hnext : callRules.next m op r m) :
        ∃ m, Phase m s.loaded s.worker s.queue ∧
          (m = false ∧ s.opened = false ∧ k r = .ret () ∨ s.opened = true ∧ Calls m (k r)) :=
      ⟨m, hphase, .inr ⟨hopened, hrest r hr m hnext⟩⟩
    cases op with
    | get v =>
      refine ⟨h.mpv, h.url, hkeep _ ?_ rfl, h.plays, h.results⟩
      cases v <;> first | exact h.mpv | exact h.url | trivial
    | set v x =>
      obtain rfl : v = .isManualStop := by cases m <;> exact hok
      exact ⟨h.mpv, h.url, hkeep () trivial rfl, h.plays, h.results⟩
    | dispatch b =>
      refine ⟨h.mpv, h.url, ⟨true, ?_, .inr ⟨hopened, hrest () trivial true rfl⟩⟩, h.plays,
        h.results⟩
      cases m with
      | false =>
        obtain rfl : b = .loadfile := hok
        exact hphase.open
      | true => exact hphase.append (.inl rfl)
    | lock | unlock | call | glCall | free | initWithCString | uninitialized | deliver
    | inDelegate => cases m <;> exact hok.elim

/-- The worker goes on, where nothing else changes that matters. -/
theorem Ordered.goto {s : State} (h : Ordered s) {t : State} (hmpv : t.obj.mpv = s.obj.mpv)
    (hurl : t.obj.url = s.obj.url) (hcore : t.core = s.core) (hcaller : t.caller = s.caller)
    (hopened : t.opened = s.opened) (hloaded : t.loaded = s.loaded)
    (hresults : ∀ r ∈ t.results, r.item = none ∨ r.item = some 1)
    (hphase : ∀ m, Phase m s.loaded s.worker s.queue → Phase m s.loaded t.worker t.queue) :
    Ordered t where
  mpv := hmpv ▸ h.mpv
  url := hurl ▸ h.url
  phase := by
    obtain ⟨m, hp, hm⟩ := h.phase
    rw [hloaded, hopened, hcaller]
    exact ⟨m, hphase m hp, hm⟩
  plays := by
    rw [hloaded, hcore]
    exact h.plays
  results := hresults

/-- What an operation of a block changes, other than a command. -/
theorem perform_frame (s : State) (e : Event) {op : Op} (hok : workOk op) :
    (s.perform e op).2 = { s with obj := (s.perform e op).2.obj } ∧
      (s.perform e op).2.obj.mpv = s.obj.mpv ∧ (s.perform e op).2.obj.url = s.obj.url := by
  cases op with
  | set v x =>
    exact ⟨rfl, s.obj.get_set_of_ne x (Ne.symm hok.1), s.obj.get_set_of_ne x (Ne.symm hok.2)⟩
  | dispatch => exact hok.elim
  | get | lock | unlock | call | glCall | free | initWithCString | uninitialized | deliver
  | inDelegate => exact ⟨rfl, rfl, rfl⟩

theorem Ordered.perform {s : State} (h : Ordered s) (e : Event) {op : Op} {k : op.Res → Core Bool}
    (hworker : s.worker = .run (.act op k)) (hcommand : ∀ hd c, op ≠ .call hd (.command c)) :
    Ordered { (s.perform e op).2 with worker := .run (k (s.perform e op).1) } := by
  obtain ⟨m, hp, -⟩ := h.phase
  rw [hworker] at hp
  obtain ⟨hsame, hmpv, hurl⟩ := perform_frame s e (hp.operation hcommand).1
  rw [hsame]
  refine h.goto hmpv hurl rfl rfl rfl rfl h.results fun m hm => ?_
  rw [hworker] at hm
  exact (hm.operation hcommand).2 _

/-- The worker gives a command. -/
theorem Ordered.command {s : State} (h : Ordered s) {hd : Option Handle} {c : List CString}
    {k : Int → Core Bool} (hworker : s.worker = .run (.act (.call hd (.command c)) k)) :
    Ordered (s.command c k) := by
  obtain ⟨m, hp, hm⟩ := h.phase
  rw [hworker] at hp
  obtain ⟨rfl, hworks, hfirst⟩ := hp.command
  have hopen {t : State} (ht : t.obj = s.obj ∧ t.opened = s.opened ∧ t.caller = s.caller)
      (hresults : t.results = s.results) (hloaded : t.loaded = true) (hworker : t.worker.Works)
      (hplays : Plays t.core) : Ordered t := by
    refine ⟨ht.1 ▸ h.mpv, ht.1 ▸ h.url, ?_, fun _ => hplays, hresults ▸ h.results⟩
    rw [hloaded, ht.2.1, ht.2.2]
    exact ⟨true, .loaded hworker, hm⟩
  simp only [State.command]
  rcases hfirst with hloaded | ⟨url, rfl⟩
  · split
    · exact hopen ⟨rfl, rfl, rfl⟩ rfl hloaded hworks (h.plays hloaded)
    split
    · exact hopen ⟨rfl, rfl, rfl⟩ rfl rfl (hworks 0) (plays_loadfile s.core)
    · exact hopen ⟨rfl, rfl, rfl⟩ rfl hloaded (hworks 0) (h.plays hloaded)
  · have hhead : (Block.loadfile.command url).head? = some (cstr "loadfile") := rfl
    rw [if_neg (by simp [isTrackAdd_loadfile]), if_pos hhead]
    exact hopen ⟨rfl, rfl, rfl⟩ rfl rfl (hworks 0) (plays_loadfile s.core)

theorem Ordered.work {s s' : State} {e : Event} (h : Ordered s)
    (hs : step s (.work e) = some s') : Ordered s' := by
  simp only [step] at hs
  split at hs
  · rename_i hd c k hworker
    cases hs
    exact h.command hworker
  · rename_i op k hcommand hworker
    cases hs
    refine h.perform e hworker ?_
    rintro hd c rfl
    exact hcommand hd c k rfl HEq.rfl
  · cases hs

/-- A command that adds a track is under way only after the one of `open`. -/
theorem Ordered.loaded {s : State} (h : Ordered s) (hworker : ∀ p, s.worker ≠ .run p) :
    s.loaded = true ∧ s.worker.Works ∧ Plays s.core := by
  obtain ⟨m, hp, -⟩ := h.phase
  generalize hl : s.loaded = loaded at hp
  generalize hw : s.worker = w at hp
  generalize s.queue = queue at hp
  cases hp with
  | before | queued | start | read | call => exact absurd hw (hworker _)
  | loaded hp => exact ⟨rfl, hp, h.plays hl⟩

/-- The worker of a command that adds a track goes on. -/
theorem Ordered.setWorker {s : State} (h : Ordered s) (hworker : ∀ p, s.worker ≠ .run p)
    {w : Worker} (hw : w.Works) {results : List Result}
    (hresults : ∀ r ∈ results, r.item = none ∨ r.item = some 1) :
    Ordered { s with worker := w, results := results } := by
  have hloaded := (h.loaded hworker).1
  refine h.goto rfl rfl rfl rfl rfl rfl hresults fun m hp => ?_
  rw [hloaded] at hp ⊢
  cases hp with
  | loaded => exact .loaded hw

theorem Ordered.complete {s : State} (h : Ordered s) (hworker : ∀ p, s.worker ≠ .run p)
    {command : List CString} {item : Option Nat} {k : Int → Core Bool}
    (hk : ∀ r, Only workOk (k r)) (hitem : item = none ∨ item = some 1) :
    Ordered (s.complete command item k) := by
  refine h.setWorker (w := .run _) hworker (hk _) fun r hr => ?_
  rcases List.mem_append.mp hr with hr | hr
  · exact h.results r hr
  · exact List.mem_singleton.mp hr ▸ hitem

theorem Ordered.start {s s' : State} (h : Ordered s) (hs : step s .start = some s') :
    Ordered s' := by
  simp only [step] at hs
  split at hs
  · rename_i command cancelled k hworker
    cases hs
    have hrun (p : Core Bool) : s.worker ≠ .run p := by simp [hworker]
    have hworks := (h.loaded hrun).2.1
    rw [hworker] at hworks
    split
    · exact h.complete hrun hworks (.inl rfl)
    · exact h.setWorker (w := .opening command cancelled k) hrun hworks h.results
  · cases hs

theorem Ordered.finish {s s' : State} (h : Ordered s) (hs : step s .finish = some s') :
    Ordered s' := by
  simp only [step] at hs
  split at hs
  · rename_i command cancelled k hworker
    cases hs
    have hrun (p : Core Bool) : s.worker ≠ .run p := by simp [hworker]
    obtain ⟨-, hworks, hplays⟩ := h.loaded hrun
    rw [hworker] at hworks
    refine h.complete hrun hworks ?_
    split
    · exact .inl rfl
    · rename_i hgoes
      exact .inr (hplays.playing (not_not.mp (not_or.mp hgoes).1))
  · cases hs

theorem Phase.cancel {m loaded : Bool} {w : Worker} {queue : List Block}
    (h : Phase m loaded w queue) : Phase m loaded w.cancel queue := by
  cases h with
  | before hp hqueue => exact .before hp hqueue
  | queued hp hpre => exact .queued hp hpre
  | start => exact .start
  | read url => exact .read url
  | call h url => exact .call h url
  | @loaded w _ hw => cases w <;> exact .loaded hw

theorem Ordered.runCore {s s' : State} {l : PlaybackLabel Nat} (h : Ordered s)
    (hs : step s (.core l) = some s') : Ordered s' := by
  obtain ⟨m, hp, hm⟩ := h.phase
  cases l with
  | loadfile | stop | other => cases hs
  | startFile =>
    obtain ⟨core, hcore, rfl⟩ := Option.map_eq_some_iff.mp hs
    exact ⟨h.mpv, h.url, ⟨m, hp, hm⟩, fun hl => (h.plays hl).startFile hcore, h.results⟩
  | finish reason =>
    obtain ⟨core, hcore, rfl⟩ := Option.map_eq_some_iff.mp hs
    exact ⟨h.mpv, h.url, ⟨m, hp, hm⟩, fun hl => (h.plays hl).finish hcore, h.results⟩
  | endFile next =>
    obtain ⟨core, hcore, rfl⟩ := Option.map_eq_some_iff.mp hs
    exact ⟨h.mpv, h.url, ⟨m, hp.cancel, hm⟩, fun hl => (h.plays hl).endFile hcore, h.results⟩

theorem Ordered.step {s s' : State} {l : Label} (h : Ordered s) (hs : step s l = some s') :
    Ordered s' := by
  cases l with
  | «open» => exact h.open hs
  | addSubtitle str =>
    obtain ⟨hopened, hs⟩ := Option.ite_none_right_eq_some.mp hs
    exact h.add hopened (calls_addSubtitle str) hs
  | addAudio str =>
    obtain ⟨hopened, hs⟩ := Option.ite_none_right_eq_some.mp hs
    exact h.add hopened (calls_addAudio str) hs
  | caller => exact h.runCaller hs
  | wakeup =>
    cases hs
    obtain ⟨m, hp, hm⟩ := h.phase
    exact ⟨h.mpv, h.url, ⟨m, hp.append (.inr rfl), hm⟩, h.plays, h.results⟩
  | take =>
    simp only [Attachment.step] at hs
    split at hs
    · rename_i b queue hworker hqueue
      cases hs
      obtain ⟨m, hp, hm⟩ := h.phase
      rw [hworker, hqueue] at hp
      exact ⟨h.mpv, h.url, ⟨m, hp.take, hm⟩, h.plays, h.results⟩
    · cases hs
  | again =>
    simp only [Attachment.step] at hs
    split at hs
    · rename_i hworker
      cases hs
      obtain ⟨m, hp, hm⟩ := h.phase
      rw [hworker] at hp
      exact ⟨h.mpv, h.url, ⟨m, hp.again, hm⟩, h.plays, h.results⟩
    · cases hs
  | work e => exact h.work hs
  | start => exact h.start hs
  | finish => exact h.finish hs
  | core l => exact h.runCore hs

theorem ordered_of_under {G : attachments.Guard} {s : State} (h : attachments.Under G s) :
    Ordered s := by
  apply h.invariant
  · rintro s ⟨hd, o, url, core, aborted, pending, -, rfl⟩
    exact .before hd o url core aborted pending
  · exact fun s s' l hi _ hs => hi.step hs

/-- A track that is added after `open` is not attached to the item that was playing. -/
theorem not_attached_to_other {s : State} (h : attachments.Reachable s) :
    ∀ r ∈ s.results, r.item = none ∨ r.item = some 1 :=
  (ordered_of_under h).results

end Attachment
