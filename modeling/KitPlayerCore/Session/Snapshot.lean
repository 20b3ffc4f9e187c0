-- SUMMARY: What a `loadfile` command is executed with, against what was current when `open` was called for it.
import KitPlayerCore.Core.Assignment
import KitPlayerCore.Transition.Machine

/-!
# Snapshots

One thread assigns the URL, the headers and the FFmpeg options, and calls `open`. The
headers and the options go to mpv at once. The URL is read by the block that `open`
dispatches, when the serial queue comes to it.
-/

namespace Snapshot

open Core Mpv Transition

/-- The `loadfile` command for a URL, and the options that it is executed under. -/
structure Request where
  command : List CString
  httpHeaderFields : List CString
  demuxerLavfO : List (CString × CString)
  deriving DecidableEq, Repr

def request (options : Options) (command : List CString) : Request :=
  ⟨command, options.httpHeaderFields, options.demuxerLavfO⟩

/-- What the caller does. -/
inductive Action where
  | setUrl (url : Option NSString)
  | assign (a : Assignment)
  | open

def Action.body : Action → Core Unit
  | .setUrl url => Core.setUrl url
  | .assign a => a.body
  | .open => Core.open

/-- The state while the handle is live. The last two fields record the successful
    calls of `open` and the commands that mpv executed. -/
structure State extends Configured where
  /-- The blocks that are pending, the next one first. -/
  queue : List Block := []
  /-- What the caller has left of a method. -/
  caller : Core Unit := .ret ()
  /-- What the queue has left of a block. After `true` it makes another pass. -/
  worker : Core Bool := .ret false
  opened : List Request := []
  loaded : List Request := []

inductive Label where
  /-- The caller calls a method. -/
  | begin (a : Action)
  /-- The caller goes on. -/
  | caller
  /-- The wakeup callback dispatches a block. -/
  | wakeup
  /-- The queue takes the next block. -/
  | take
  /-- The queue makes another pass of its loop. -/
  | again
  /-- The queue goes on. `mpv_wait_event` returns `e`. -/
  | work (e : Event)

namespace State

/-- The effect of an operation. `open` has succeeded when it dispatches its block. -/
def perform (s : State) (e : Event) : (op : Op) → op.Res × State
  | .dispatch b => ((), { s with
      queue := s.queue ++ [b]
      opened := if b = .loadfile then
          s.opened ++ [request s.options (Block.loadfile.command s.obj.url)]
        else s.opened })
  | .call _ (.command args) => ((0 : Int), { s with loaded := s.loaded ++ [request s.options args] })
  | .call _ .waitEvent => (e, s)
  | op => ((s.toConfigured.perform op).1, { s with toConfigured := (s.toConfigured.perform op).2 })

end State

def step (s : State) : Label → Option State
  | .begin a =>
    match s.caller with
    | .ret _ => some { s with caller := a.body }
    | .act _ _ => none
  | .caller =>
    match s.caller with
    | .ret _ => none
    | .act op k =>
      some { (s.perform ⟨.none, .none⟩ op).2 with caller := k (s.perform ⟨.none, .none⟩ op).1 }
  | .wakeup => some { s with queue := s.queue ++ [.readEvents] }
  | .take =>
    match s.worker, s.queue with
    | .ret false, b :: queue => some { s with queue := queue, worker := b.body }
    | _, _ => none
  | .again =>
    match s.worker with
    | .ret true => some { s with worker := readEventsPass }
    | _ => none
  | .work e =>
    match s.worker with
    | .ret _ => none
    | .act op k => some { (s.perform e op).2 with worker := k (s.perform e op).1 }

/-- A player that was initialised, with nothing opened so far. -/
def State.afterInitView (h : Handle) (o : Object) (options : Options) : State where
  obj := { o with mpv := some h }
  options := options
  queue := registered o

def snapshots : Machine State Label where
  init s := ∃ h o options, s = .afterInitView h o options
  step := step

/-! ## Assignments that overtake -/

/-- A block of `open` has yet to read the URL. -/
def State.Unread (s : State) : Prop := .loadfile ∈ s.queue ∨ ∃ k, s.worker = .act (.get .url) k

/-- Assigning `url` changes the command of a `loadfile` block that reads it afterwards. -/
def State.Redirects (s : State) (url : Option NSString) : Prop :=
  s.Unread ∧ Block.loadfile.command url ≠ Block.loadfile.command s.obj.url

/-- Setting the option changes what a command is executed under for which `open` was
    called before. -/
def State.Reconfigures (s : State) (name data : CString) : Prop :=
  s.loaded.length < s.opened.length ∧
    ((s.options.setOptionString name data).2.httpHeaderFields ≠ s.options.httpHeaderFields ∨
      (s.options.setOptionString name data).2.demuxerLavfO ≠ s.options.demuxerLavfO)

/-- While a block of `open` has yet to read the URL, the caller does not change it, and
    while such a block has yet to give its command, the caller does not change the
    headers and options that are in force. -/
def Settled (s : State) : Label → Prop
  | .caller =>
    (∀ url k, s.caller = .act (.set .url url) k → ¬ s.Redirects url) ∧
    (∀ h name data k, s.caller = .act (.call (some h) (.setOptionString name data)) k →
      ¬ s.Reconfigures name data)
  | _ => True

/-! ## The code of the caller and of the queue -/

/-- What the caller does outside of its own variables. -/
def callerOk : Op → Prop
  | .get _ | .set _ _ => True
  | .call _ (.setOptionString _ _) => True
  | .dispatch b => b = .loadfile
  | _ => False

theorem action_callerOk (a : Action) : Program.Only callerOk a.body := by
  cases a with
  | setUrl url => simp [Action.body, Core.setUrl, callerOk]
  | «open» => simp [Action.body, Core.open, callerOk]
  | assign a =>
    cases a with
    | headerDic dic =>
      cases dic with
      | none => simp [Action.body, Assignment.body, Core.setHeaderDic, callerOk]
      | some dic =>
        cases hua : dic.valueForKey "User-Agent" <;>
          simp [Action.body, Assignment.body, Core.setHeaderDic, callerOk, hua]
    | avOptionDic dic => simp [Action.body, Assignment.body, Core.setAvOptionDic, callerOk]

/-- What the block of `readEvents` does. -/
def eventOk : Op → Prop
  | .get v => v ≠ .url
  | .set v _ => v ≠ .url
  | .call _ f => f = .waitEvent
  | .deliver _ | .inDelegate => True
  | _ => False

theorem handleEvent_eventOk (event : Event) : Program.Only eventOk (handleEvent event) := by
  simp only [handleEvent, runCoreEvent]
  split <;> simp [eventOk]

theorem readEventsPass_eventOk : Program.Only eventOk readEventsPass := by
  have hevent (event : Event) :
      Program.Only eventOk (handleEvent event >>= fun _ => (.ret true : Core Bool)) :=
    (handleEvent_eventOk event).bind fun _ => trivial
  simp [readEventsPass, eventOk]
  exact fun _ _ _ event _ => hevent event

/-- What is left of a block that has yet to give the commands in the list, where the
    URL is `url`. -/
inductive Running (url : Option NSString) : Core Bool → List (List CString) → Prop where
  | events {p : Core Bool} : Program.Only eventOk p → Running url p []
  | start : Running url Block.loadfile.body [Block.loadfile.command url]
  | read (args : List CString) : Running url (runCommand args) [args]
  | call (h : Option Handle) (args : List CString) :
    Running url (.act (.call h (.command args)) fun _ => .ret false) [args]

theorem Running.eq_nil {url : Option NSString} {b : Bool} {commands : List (List CString)}
    (h : Running url (.ret b) commands) : commands = [] := by
  cases h
  rfl

/-! ## Runs -/

/-- The commands that the pending blocks of `open` give, where the URL is `url`. -/
def pending (url : Option NSString) (queue : List Block) : List (List CString) :=
  (queue.filter (· = .loadfile)).map (Block.command url)

theorem pending_registered (url : Option NSString) (o : Object) :
    pending url (registered o) = [] := by
  have hnone : ∀ b ∈ registered o, ¬ decide (b = .loadfile) = true := fun b hb =>
    eq_of_mem_registered hb ▸ nofun
  simp only [pending, List.filter_eq_nil_iff.mpr hnone, List.map_nil]

/-- What was executed, and what `worker` and the pending blocks are still to execute,
    is what was opened. -/
def State.Promised (s : State) (worker : Core Bool) : Prop :=
  ∃ commands, Running s.obj.url worker commands ∧
    s.opened = s.loaded ++ (commands ++ pending s.obj.url s.queue).map (request s.options)

structure Faithful (s : State) : Prop where
  caller : Program.Only callerOk s.caller
  queue : ∀ b ∈ s.queue, b = .loadfile ∨ b = .readEvents
  promised : s.Promised s.worker

/-- Nothing changes that the commands depend on. -/
structure Frame (s s' : State) : Prop where
  url : s'.obj.url = s.obj.url
  options : s'.options = s.options
  queue : s'.queue = s.queue
  opened : s'.opened = s.opened
  loaded : s'.loaded = s.loaded
  caller : s'.caller = s.caller
  worker : s'.worker = s.worker

theorem Frame.set (s : State) (e : Event) {v : Ivar} (x : v.type) (hv : v ≠ .url) :
    Frame s (s.perform e (.set v x)).2 := by
  have hurl : (s.obj.set v x).url = s.obj.url := s.obj.get_set_of_ne x (Ne.symm hv)
  exact ⟨hurl, rfl, rfl, rfl, rfl, rfl, rfl⟩

/-- What a block of `readEvents` does changes nothing of it. -/
theorem Frame.event (s : State) (e : Event) {op : Op} (h : eventOk op) :
    Frame s (s.perform e op).2 := by
  cases op with
  | set v x => exact .set s e x h
  | call hd f =>
    obtain rfl : f = .waitEvent := h
    exact ⟨rfl, rfl, rfl, rfl, rfl, rfl, rfl⟩
  | get v | deliver status | inDelegate => exact ⟨rfl, rfl, rfl, rfl, rfl, rfl, rfl⟩
  | lock l | unlock l | glCall f | free p | initWithCString p | uninitialized | dispatch b =>
    cases h

theorem Frame.promised {s s' : State} (h : Frame s s') {worker : Core Bool}
    (hp : s.Promised worker) : s'.Promised worker := by
  obtain ⟨commands, hrun, hopened⟩ := hp
  exact ⟨commands, h.url ▸ hrun, by rw [h.opened, h.loaded, h.url, h.queue, h.options, hopened]⟩

theorem Faithful.afterInitView (h : Handle) (o : Object) (options : Options) :
    Faithful (.afterInitView h o options) where
  caller := trivial
  queue _ hb := .inr (eq_of_mem_registered hb)
  promised := ⟨[], .events trivial, by simp [State.afterInitView, pending_registered]⟩

/-! ## The queue -/

theorem Faithful.wakeup {s s' : State} (h : Faithful s) (hs : step s .wakeup = some s') :
    Faithful s' := by
  cases hs
  obtain ⟨commands, hrun, hopened⟩ := h.promised
  refine ⟨h.caller, ?_, commands, hrun, ?_⟩
  · intro b hb
    rcases List.mem_append.mp hb with hb | hb
    · exact h.queue b hb
    · exact .inr (List.mem_singleton.mp hb)
  · simpa [pending] using hopened

theorem Faithful.take {s s' : State} (h : Faithful s) (hs : step s .take = some s') :
    Faithful s' := by
  simp only [step] at hs
  split at hs
  · rename_i b queue hworker hqueue
    cases hs
    obtain ⟨commands, hrun, hopened⟩ := h.promised
    have hblocks := h.queue
    rw [hworker] at hrun
    rw [hqueue] at hopened hblocks
    obtain rfl := hrun.eq_nil
    refine ⟨h.caller, fun b hb => hblocks b (List.mem_cons_of_mem _ hb), ?_⟩
    rcases hblocks b List.mem_cons_self with rfl | rfl
    · exact ⟨_, .start, hopened⟩
    · exact ⟨_, .events readEventsPass_eventOk, hopened⟩
  · cases hs

theorem Faithful.again {s s' : State} (h : Faithful s) (hs : step s .again = some s') :
    Faithful s' := by
  simp only [step] at hs
  split at hs
  · rename_i hworker
    cases hs
    obtain ⟨commands, hrun, hopened⟩ := h.promised
    rw [hworker] at hrun
    obtain rfl := hrun.eq_nil
    exact ⟨h.caller, h.queue, _, .events readEventsPass_eventOk, hopened⟩
  · cases hs

theorem Faithful.work {s s' : State} {e : Event} (h : Faithful s)
    (hs : step s (.work e) = some s') : Faithful s' := by
  simp only [step] at hs
  split at hs
  · cases hs
  · rename_i op k hworker
    cases hs
    obtain ⟨commands, hrun, hopened⟩ := h.promised
    rw [hworker] at hrun
    cases hrun with
    | events hok =>
      have hframe := Frame.event s e hok.1
      exact ⟨hframe.caller ▸ h.caller, hframe.queue ▸ h.queue,
        hframe.promised ⟨[], .events (hok.2 _), hopened⟩⟩
    | start => exact ⟨h.caller, h.queue, _, .read _, hopened⟩
    | read args => exact ⟨h.caller, h.queue, _, .call _ args, hopened⟩
    | call hd args =>
      refine ⟨h.caller, h.queue, [], .events trivial, ?_⟩
      simpa [State.perform] using hopened

/-! ## The caller -/

theorem Faithful.begin {s s' : State} {a : Action} (h : Faithful s)
    (hs : step s (.begin a) = some s') : Faithful s' := by
  simp only [step] at hs
  split at hs
  · cases hs
    exact ⟨action_callerOk a, h.queue, h.promised⟩
  · cases hs

/-- The commands are the same for a URL that no block is redirected by. -/
theorem State.Promised.setUrl {s : State} (hp : s.Promised s.worker)
    {url : Option NSString} (hurl : ¬ s.Redirects url) :
    ({ s with obj := { s.obj with url := url } } : State).Promised s.worker := by
  obtain ⟨commands, hrun, hopened⟩ := hp
  have hsame (hunread : s.Unread) :
      Block.loadfile.command url = Block.loadfile.command s.obj.url := by
    by_contra hne
    exact hurl ⟨hunread, hne⟩
  have hrun' : Running url s.worker commands := by
    generalize hw : s.worker = worker at hrun
    cases hrun with
    | events hok => exact .events hok
    | start => exact hsame (.inr ⟨_, hw⟩) ▸ .start
    | read args => exact .read args
    | call hd args => exact .call hd args
  have hpending : pending url s.queue = pending s.obj.url s.queue := by
    apply List.map_congr_left
    intro b hb
    obtain ⟨hmem, hb⟩ := List.mem_filter.mp hb
    obtain rfl := of_decide_eq_true hb
    exact hsame (.inl hmem)
  exact ⟨commands, hrun', by simpa [hpending] using hopened⟩

/-- The commands are executed under the same options if none is reconfigured. -/
theorem State.Promised.setOption {s : State} (hp : s.Promised s.worker) {name data : CString}
    (hoption : ¬ s.Reconfigures name data) :
    ({ s with options := (s.options.setOptionString name data).2 } : State).Promised s.worker := by
  obtain ⟨commands, hrun, hopened⟩ := hp
  refine ⟨commands, hrun, ?_⟩
  rcases Nat.lt_or_ge s.loaded.length s.opened.length with hlt | hge
  · have hsame : request (s.options.setOptionString name data).2 = request s.options := by
      funext command
      have hvalues := not_or.mp fun hne => hoption ⟨hlt, hne⟩
      simp only [request, not_not.mp hvalues.1, not_not.mp hvalues.2]
    simpa [hsame] using hopened
  · have hnil : commands ++ pending s.obj.url s.queue = [] := by
      rw [hopened, List.length_append, List.length_map] at hge
      exact List.length_eq_zero_iff.mp (by omega)
    rw [hnil] at hopened
    simpa [hnil] using hopened

theorem Faithful.runCaller {s s' : State} (h : Faithful s) (hg : Settled s .caller)
    (hs : step s .caller = some s') : Faithful s' := by
  simp only [step] at hs
  split at hs
  · cases hs
  · rename_i op k hcaller
    cases hs
    have hok := h.caller
    rw [hcaller] at hok
    have hframe (hf : Frame s (s.perform ⟨.none, .none⟩ op).2) :
        Faithful { (s.perform ⟨.none, .none⟩ op).2 with
          caller := k (s.perform ⟨.none, .none⟩ op).1 } :=
      ⟨hok.2 _, hf.queue ▸ h.queue, hf.worker ▸ hf.promised h.promised⟩
    cases op with
    | get v => exact hframe ⟨rfl, rfl, rfl, rfl, rfl, rfl, rfl⟩
    | set v x =>
      by_cases hv : v = .url
      · subst hv
        exact ⟨hok.2 _, h.queue, h.promised.setUrl (hg.1 x k hcaller)⟩
      · exact hframe (.set s _ x hv)
    | call hd f =>
      cases f with
      | setOptionString name data =>
        cases hd with
        | none => exact hframe ⟨rfl, rfl, rfl, rfl, rfl, rfl, rfl⟩
        | some hd =>
          exact ⟨hok.2 _, h.queue, h.promised.setOption (hg.2 hd name data k hcaller)⟩
      | command | setProperty | getProperty | waitEvent | clearWakeupCallback | detachDestroy =>
        exact absurd hok.1 id
    | dispatch b =>
      obtain rfl : b = .loadfile := hok.1
      obtain ⟨commands, hrun, hopened⟩ := h.promised
      refine ⟨hok.2 _, ?_, commands, hrun, ?_⟩
      · intro b hb
        rcases List.mem_append.mp hb with hb | hb
        · exact h.queue b hb
        · exact .inl (List.mem_singleton.mp hb)
      · simp [State.perform, hopened, pending]
    | lock | unlock | glCall | free | initWithCString | uninitialized | deliver | inDelegate =>
      exact absurd hok.1 id

theorem Faithful.step {s s' : State} {l : Label} (h : Faithful s) (hg : Settled s l)
    (hs : step s l = some s') : Faithful s' := by
  cases l with
  | begin a => exact h.begin hs
  | caller => exact h.runCaller hg hs
  | wakeup => exact h.wakeup hs
  | take => exact h.take hs
  | again => exact h.again hs
  | work e => exact h.work hs

/-! ## The commands that are executed -/

/-- While no assignment overtakes a call of `open`, the `k`-th command that is executed
    is the one of the `k`-th successful call, under the options of that call. -/
theorem loaded_isPrefix_of_settled {s : State} (h : snapshots.Under Settled s) :
    s.loaded <+: s.opened := by
  have hf : Faithful s := by
    apply h.invariant
    · rintro s ⟨hd, o, options, rfl⟩
      exact .afterInitView hd o options
    · exact fun s s' l hi hg hs => hi.step hg hs
  obtain ⟨commands, -, hopened⟩ := hf.promised
  exact ⟨_, hopened.symm⟩

/-- A test that is enough for `Settled`. -/
def settles (s : State) : Label → Bool
  | .caller =>
    match s.caller with
    | .act (.set .url _) _ =>
      match s.worker with
      | .ret _ => .loadfile ∉ s.queue
      | .act _ _ => false
    | .act (.call (some _) (.setOptionString _ _)) _ => s.opened.length ≤ s.loaded.length
    | _ => true
  | _ => true

theorem settled_of_settles (s : State) (l : Label) (h : settles s l = true) : Settled s l := by
  cases l with
  | caller =>
    constructor
    · rintro url k hcaller ⟨hunread, -⟩
      simp only [settles, hcaller] at h
      split at h
      · rename_i b hworker
        rcases hunread with hmem | ⟨k, hk⟩
        · simp [hmem] at h
        · rw [hworker] at hk
          cases hk
      · cases h
    · rintro hd name data k hcaller ⟨hlt, -⟩
      simp only [settles, hcaller, decide_eq_true_eq] at h
      omega
  | begin | wakeup | take | again | work => trivial

/-- The queue runs the block of `readEvents`, in which no event is found. -/
def findNothing : List Label :=
  [.take, .work ⟨.none, .none⟩, .work ⟨.none, .none⟩, .work ⟨.none, .none⟩, .work ⟨.none, .none⟩]

/-- The caller assigns the URL and calls `open`. -/
def openUrl (url : NSString) : List Label :=
  [.begin (.setUrl (some url)), .caller, .begin .open, .caller, .caller, .caller, .caller]

/-- The queue runs a block of `open`. -/
def loadfile : List Label :=
  [.take, .work ⟨.none, .none⟩, .work ⟨.none, .none⟩, .work ⟨.none, .none⟩]

/-- A second item is opened after the command for the first one. -/
theorem loaded_isPrefix_of_two :
    ∃ s, snapshots.Under Settled s ∧ s.loaded.length = 2 ∧ s.loaded <+: s.opened := by
  obtain ⟨s, hs, hloaded⟩ := Machine.Under.execIf_any settled_of_settles
    (.init ⟨1, {}, {}, rfl⟩ : snapshots.Under Settled (.afterInitView 1 {} {}))
    (openUrl "a" ++ findNothing ++ loadfile ++ openUrl "b" ++ loadfile)
    (p := fun s => s.loaded.length = 2) (by decide +kernel)
  exact ⟨s, hs, of_decide_eq_true hloaded, loaded_isPrefix_of_settled hs⟩

/-- The URL of the second item overtakes the first call of `open`. -/
theorem not_loaded_isPrefix :
    ¬ ∀ s, snapshots.Reachable s → s.loaded <+: s.opened := by
  intro h
  obtain ⟨s, hs, hne⟩ := Machine.Reachable.exec_any
    (.init ⟨1, {}, {}, rfl⟩ : snapshots.Reachable (.afterInitView 1 {} {}))
    (openUrl "a" ++ openUrl "b" ++ findNothing ++ loadfile)
    (p := fun s => ¬ s.loaded <+: s.opened) (by decide +kernel)
  exact of_decide_eq_true hne (h s hs)

end Snapshot
