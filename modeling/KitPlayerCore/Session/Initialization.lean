-- SUMMARY: What the public calls do to an object whose `initView` returned early.
import KitPlayerCore.Core.Effects
import KitPlayerCore.Session.Machine

/-!
# Initialization

`initView` assigns the handle first, and returns where mpv has no `opengl-cb` context or
where it fails to set up GL. The queue is created last. The public methods test the
handle, and take everything else for granted once it is there.
-/

namespace Initialization

open Core Mpv Transition Program Session

/-- What the calls return that `initView` makes after `mpv_create`. -/
structure Outcome where
  /-- The status of `mpv_initialize`, which is not looked at. -/
  initializeStatus : Int
  /-- `mpv_get_sub_api` does not return `NULL`. -/
  hasSubApi : Bool
  /-- The status of `mpv_opengl_cb_init_gl`. -/
  initGlStatus : Int

/-- One object, as a single thread sees it. The next to last three fields record what
    was done. -/
structure State where
  obj : Object
  /-- `queue` was created, by this call of `initView` or by an earlier one. -/
  queue : Bool
  /-- The core of mpv is initialized. -/
  initialized : Bool := false
  /-- `mpvGL` of the `lkView` is not `NULL`. -/
  mpvGL : Bool := false
  /-- `dispatch_async` was invoked with a queue that was not created. -/
  nullQueue : Bool := false
  /-- A function of the `opengl-cb` API was invoked with a `NULL` context. -/
  nullContext : Bool := false
  /-- How often something was changed, in the object or outside of it. -/
  effects : Nat := 0
  /-- How many operations were performed. -/
  time : Nat := 0

/-- `MPV_ERROR_UNINITIALIZED`. -/
def errorUninitialized : Int := -3

namespace State

/-- Before `mpv_initialize`, commands and reads of properties are refused. -/
def api (s : State) (a : Answer) : (f : Api) → f.Res
  | .command args => if s.initialized then a.api (.command args) else errorUninitialized
  | .getProperty name format =>
    if s.initialized then a.api (.getProperty name format) else .error errorUninitialized
  | f => a.api f

/-- The call changes something in mpv. -/
def changes (s : State) : Api → Bool
  | .command _ => s.initialized
  | .getProperty _ _ => false
  | _ => true

def effect (s : State) : State := { s with effects := s.effects + 1 }

def glCall (s : State) : State := { s with nullContext := s.nullContext || !s.mpvGL }.effect

def perform (answers : Nat → Answer) (op : Op) (s : State) : op.Res × State :=
  let a := answers s.time
  let s := { s with time := s.time + 1 }
  match op with
  | .get v => (s.obj.get v, s)
  | .set v x => ((), { s with obj := s.obj.set v x }.effect)
  | .call _ f => (s.api a f, if s.changes f then s.effect else s)
  | .glCall _ => ((), s.glCall)
  | .dispatch _ => ((), { s with nullQueue := s.nullQueue || !s.queue }.effect)
  | .initWithCString _ => (a.text, s)
  | .uninitialized => (a.double, s)
  | .lock _ | .unlock _ | .free _ | .deliver _ | .inDelegate => ((), s)

/-- `initView`, where `mpv_create` returns `h`. -/
def initView (answers : Nat → Answer) (s : State) (h : Handle) (w : Outcome) : State :=
  -- the new `lkView` has no context yet
  let obj := { s.obj with subArray := [], audioArray := [], isStopDraw := false, mpv := some h }
  let s := { s with obj, initialized := 0 ≤ w.initializeStatus, mpvGL := false }.effect
  if !w.hasSubApi then s
  else
    let s := { s with mpvGL := true }.glCall
    if w.initGlStatus < 0 then s
    else
      -- the update callback is set, and then mpv calls the new wakeup callback
      (run (perform answers) Core.wakeup { s.glCall with queue := true }).2

end State

/-- What is done with the object from outside. -/
inductive Action where
  | initView (h : Handle) (w : Outcome)
  | call (c : Call)

def State.act (answers : Nat → Answer) (s : State) : Action → State
  | .initView h w => s.initView answers h w
  | .call c => (run (perform answers) c.body s).2

/-! ## What `initView` may leave missing -/

inductive Part where
  | queue | core | context
  deriving DecidableEq, Repr

/-- What a call has to have to be served. -/
def needs : Call → List Part
  | .open | .addSubtitle _ | .addAudio _ => [.queue, .core]
  | .stop | .seekTime _ _ => [.core]
  | .shutDown => [.context]
  | _ => []

def State.has (s : State) : Part → Bool
  | .queue => s.queue
  | .core => s.initialized
  | .context => s.mpvGL

/-- An action invokes nothing with a queue or a context that is missing, and changes
    nothing if it is a call that cannot be served. -/
@[mk_iff harmless_iff]
structure Harmless (s : State) (a : Action) (s' : State) : Prop where
  queue : s'.nullQueue = false
  context : s'.nullContext = false
  idle : ∀ c, a = .call c → (∃ p ∈ needs c, s.has p = false) → s'.effects = s.effects

/-- Every one of the actions is harmless. -/
def Safe (answers : Nat → Answer) : State → List Action → Prop
  | _, [] => True
  | s, a :: as => Harmless s a (s.act answers a) ∧ Safe answers (s.act answers a) as

/-! ## The sequences of calls that are safe -/

/-- What decides whether a call is served. -/
structure Setup where
  /-- `mpv` is not `NULL`. -/
  live : Bool
  url : Option NSString
  queue : Bool
  core : Bool
  context : Bool

namespace Setup

def after (u : Setup) : Action → Setup
  | .initView _ w => { u with
      live := true
      queue := u.queue || (w.hasSubApi && 0 ≤ w.initGlStatus)
      core := 0 ≤ w.initializeStatus
      context := w.hasSubApi }
  | .call (.setUrl url) => { u with url := url }
  | .call .shutDown => { u with live := false }
  | .call _ => u

/-- The call finds what it takes for granted. -/
def Serves (u : Setup) : Call → Prop
  | .open => u.url ≠ none → u.queue = true ∧ u.core = true
  | .addSubtitle _ | .addAudio _ => u.queue = true ∧ u.core = true
  | .shutDown => u.context = true
  | _ => True

/-- While the handle is there, each call finds what it takes for granted. -/
def Spares : Setup → List Action → Prop
  | _, [] => True
  | u, a :: as => (∀ c, a = .call c → u.live = true → u.Serves c) ∧ (u.after a).Spares as

end Setup

def State.setup (s : State) : Setup :=
  ⟨s.obj.mpv.isSome, s.obj.url, s.queue, s.initialized, s.mpvGL⟩

/-! ## One action -/

/-- What no method changes that only reads and sets properties. -/
structure Frame (s s' : State) : Prop where
  setup : s'.setup = s.setup
  queue : s'.nullQueue = s.nullQueue
  context : s'.nullContext = s.nullContext

theorem Frame.refl (s : State) : Frame s s := ⟨rfl, rfl, rfl⟩

theorem Frame.trans {s s' s'' : State} (h : Frame s s') (h' : Frame s' s'') : Frame s s'' :=
  ⟨h'.setup.trans h.setup, h'.queue.trans h.queue, h'.context.trans h.context⟩

variable {answers : Nat → Answer} {s : State}

theorem frame_perform {op : Op} (hok : trackOk op ∨ plainOk op) :
    Frame s (s.perform answers op).2 := by
  cases op with
  | set v x =>
    have hne : v ≠ .mpv ∧ v ≠ .url := by cases v <;> simp_all [trackOk, plainOk, readOk]
    have hmpv : (s.obj.set v x).mpv = s.obj.mpv := s.obj.get_set_of_ne x hne.1.symm
    have hurl : (s.obj.set v x).url = s.obj.url := s.obj.get_set_of_ne x hne.2.symm
    exact ⟨by simp [State.perform, State.effect, State.setup, hmpv, hurl], rfl, rfl⟩
  | call hd f =>
    simp only [State.perform]
    split <;> exact ⟨rfl, rfl, rfl⟩
  | glCall | dispatch | deliver | inDelegate => rcases hok with h | h <;> exact h.elim
  | get | lock | unlock | free | initWithCString | uninitialized => exact ⟨rfl, rfl, rfl⟩

theorem frame_run {α : Type} {p : Core α} (hp : Only (fun op => trackOk op ∨ plainOk op) p) :
    Frame s (run (State.perform answers) p s).2 := by
  induction p generalizing s with
  | ret a => exact .refl s
  | act op k ih => exact (frame_perform hp.1).trans (ih _ (hp.2 _))

/-- What the methods do that set and read properties. -/
theorem frame_call {c : Call} (hc : c.Plain ∨ ∃ g, c = .getter g) :
    Frame s (s.act answers (.call c)) := by
  rcases hc with hc | ⟨g, rfl⟩
  · exact frame_run ((Call.plainOk hc).mono fun _ => .inr)
  · exact frame_run (g.body_trackOk.mono fun _ => .inl)

/-- What the wakeup callback does once there is a queue. -/
theorem frame_wakeup (answers : Nat → Answer) (s : State) (hq : s.queue = true) :
    Frame s (run (State.perform answers) Core.wakeup s).2 := by
  cases hstop : s.obj.isStopEvent with
  | false => constructor <;> simp [Core.wakeup, readEvents, State.perform, State.effect, Object.get,
      hstop, hq, State.setup]
  | true => constructor <;> simp [Core.wakeup, State.perform, Object.get, hstop, State.setup]

/-- `initView` uses nothing that is missing. -/
theorem initView_spec (answers : Nat → Answer) (s : State) (h : Handle) (w : Outcome) :
    (s.initView answers h w).setup = s.setup.after (.initView h w) ∧
      (s.initView answers h w).nullQueue = s.nullQueue ∧
      (s.initView answers h w).nullContext = s.nullContext := by
  by_cases hsub : w.hasSubApi = true
  · by_cases hgl : w.initGlStatus < 0
    · simp [State.initView, hsub, hgl, State.setup, Setup.after, State.glCall, State.effect]
    · simp only [State.initView, hsub, hgl, Bool.not_true, Bool.false_eq_true, if_false]
      rw [(frame_wakeup answers _ rfl).setup, (frame_wakeup answers _ rfl).queue,
        (frame_wakeup answers _ rfl).context]
      simp [State.setup, Setup.after, State.glCall, State.effect, hsub, Int.not_lt.mp hgl]
  · simp [State.initView, hsub, State.setup, Setup.after, State.effect]

theorem setup_act (a : Action) : (s.act answers a).setup = s.setup.after a := by
  cases a with
  | initView h w => exact (initView_spec answers s h w).1
  | call c =>
    have hplain (hc : c.Plain) : (s.act answers (.call c)).setup = s.setup :=
      (frame_call (.inl hc)).setup
    cases c
    case «open» =>
      cases hmpv : s.obj.mpv <;> cases hurl : s.obj.url <;>
        simp [State.act, Call.body, Core.open, State.perform, Object.get, Object.set, State.effect,
          State.setup, Setup.after, hmpv, hurl]
    case addSubtitle | addAudio =>
      cases hmpv : s.obj.mpv <;>
        simp [State.act, Call.body, Core.addSubtitle, Core.addAudio, State.perform, Object.get,
          State.effect, State.setup, Setup.after, hmpv]
    case shutDown =>
      cases hmpv : s.obj.mpv <;>
        simp [State.act, Call.body, Core.shutDown, State.perform, Object.get, Object.set,
          State.effect, State.glCall, State.changes, State.setup, Setup.after, hmpv]
    case setUrl => rfl
    case setIsStopEvent => rfl
    case getter g => exact (frame_call (.inr ⟨g, rfl⟩)).setup
    all_goals exact hplain trivial

/-- A call that needs nothing but the handle. -/
theorem harmless_of_needs {c : Call} (hneeds : needs c = []) {s' : State}
    (hqueue : s'.nullQueue = false) (hcontext : s'.nullContext = false) :
    Harmless s (.call c) s' := by
  refine ⟨hqueue, hcontext, ?_⟩
  rintro c' hc ⟨p, hp, -⟩
  obtain rfl := Action.call.inj hc
  simp [hneeds] at hp

theorem harmless_open_iff (hqueue : s.nullQueue = false) (hcontext : s.nullContext = false) :
    Harmless s (.call .open) (s.act answers (.call .open)) ↔
      (s.setup.live = true → s.setup.Serves .open) := by
  have hne : s.effects + 1 + 1 ≠ s.effects := by omega
  cases hmpv : s.obj.mpv <;> cases hurl : s.obj.url <;> cases hq : s.queue <;>
    cases hcore : s.initialized <;>
    simp [harmless_iff, State.act, Call.body, Core.open, State.perform, Object.get, State.effect,
      State.setup, Setup.Serves, needs, State.has, hmpv, hurl, hqueue, hcontext, hq, hcore, hne]

/-- The two methods that add a track differ in the block they dispatch. -/
theorem harmless_add_iff {c : Call} {b : Block}
    (hc : c.body = get .mpv >>= fun h => if h.isNone then pure () else dispatch b)
    (hneeds : needs c = [.queue, .core])
    (hserves : ∀ u : Setup, u.Serves c ↔ u.queue = true ∧ u.core = true)
    (hqueue : s.nullQueue = false) (hcontext : s.nullContext = false) :
    Harmless s (.call c) (s.act answers (.call c)) ↔
      (s.setup.live = true → s.setup.Serves c) := by
  cases hmpv : s.obj.mpv <;> cases hq : s.queue <;> cases hcore : s.initialized <;>
    simp [harmless_iff, State.act, hc, State.perform, Object.get, State.effect, State.setup,
      State.has, hneeds, hserves, hmpv, hqueue, hcontext, hq, hcore]

theorem harmless_shutDown_iff (hqueue : s.nullQueue = false) (hcontext : s.nullContext = false) :
    Harmless s (.call .shutDown) (s.act answers (.call .shutDown)) ↔
      (s.setup.live = true → s.setup.Serves .shutDown) := by
  cases hmpv : s.obj.mpv <;> cases hgl : s.mpvGL <;>
    simp [harmless_iff, State.act, Call.body, Core.shutDown, State.perform, Object.get, Object.set,
      State.effect, State.glCall, State.changes, State.setup, Setup.Serves, needs, State.has, hmpv,
      hqueue, hcontext, hgl]

/-- Commands that are given at once are refused by a core that is not initialized. -/
theorem harmless_command {c : Call} {args : List CString}
    (hc : c.body = get .mpv >>= fun h =>
      if h.isNone then pure () else call (.command args) >>= fun _ => pure ())
    (hneeds : needs c = [.core]) (hqueue : s.nullQueue = false) (hcontext : s.nullContext = false) :
    Harmless s (.call c) (s.act answers (.call c)) := by
  cases hmpv : s.obj.mpv <;> cases hcore : s.initialized <;>
    simp [harmless_iff, State.act, hc, State.perform, Object.get, State.effect, State.changes,
      State.has, hneeds, hmpv, hqueue, hcontext, hcore]

/-- An action is harmless exactly if what it takes for granted is there. -/
theorem harmless_act_iff (answers : Nat → Answer) (a : Action) (hqueue : s.nullQueue = false)
    (hcontext : s.nullContext = false) :
    Harmless s a (s.act answers a) ↔
      ∀ c, a = .call c → s.setup.live = true → s.setup.Serves c := by
  cases a with
  | initView h w =>
    obtain ⟨-, hqueue', hcontext'⟩ := initView_spec answers s h w
    exact iff_of_true ⟨hqueue'.trans hqueue, hcontext'.trans hcontext, nofun⟩ nofun
  | call c =>
    have hplain (hc : c.Plain ∨ ∃ g, c = .getter g) (hneeds : needs c = []) :
        Harmless s (.call c) (s.act answers (.call c)) := by
      have hframe : Frame s (s.act answers (.call c)) := frame_call hc
      exact harmless_of_needs hneeds (hframe.queue.trans hqueue) (hframe.context.trans hcontext)
    have hserved (h : Harmless s (.call c) (s.act answers (.call c))) (hc : s.setup.Serves c) :
        Harmless s (.call c) (s.act answers (.call c)) ↔
          ∀ c', Action.call c = .call c' → s.setup.live = true → s.setup.Serves c' :=
      iff_of_true h fun c' hc' _ => Action.call.inj hc' ▸ hc
    have hcall (h : Harmless s (.call c) (s.act answers (.call c)) ↔
          (s.setup.live = true → s.setup.Serves c)) :
        Harmless s (.call c) (s.act answers (.call c)) ↔
          ∀ c', Action.call c = .call c' → s.setup.live = true → s.setup.Serves c' :=
      h.trans ⟨fun hc c' hc' => Action.call.inj hc' ▸ hc, fun hc => hc c rfl⟩
    cases c
    case «open» => exact hcall (harmless_open_iff hqueue hcontext)
    case addSubtitle str =>
      exact hcall (harmless_add_iff (b := .subAdd str) rfl rfl (fun _ => Iff.rfl) hqueue hcontext)
    case addAudio str =>
      exact hcall (harmless_add_iff (b := .audioAdd str) rfl rfl (fun _ => Iff.rfl) hqueue hcontext)
    case shutDown => exact hcall (harmless_shutDown_iff hqueue hcontext)
    case stop => exact hserved (harmless_command rfl rfl hqueue hcontext) trivial
    case seekTime => exact hserved (harmless_command rfl rfl hqueue hcontext) trivial
    case setUrl => exact hserved (harmless_of_needs rfl hqueue hcontext) trivial
    case setIsStopEvent => exact hserved (harmless_of_needs rfl hqueue hcontext) trivial
    case getter g => exact hserved (hplain (.inr ⟨g, rfl⟩) rfl) trivial
    all_goals exact hserved (hplain (.inl trivial) rfl) trivial

/-- The actions are harmless exactly if each call finds what it takes for granted. -/
theorem safe_iff {s : State} (as : List Action) (hqueue : s.nullQueue = false)
    (hcontext : s.nullContext = false) : Safe answers s as ↔ s.setup.Spares as := by
  induction as generalizing s with
  | nil => exact Iff.rfl
  | cons a as ih =>
    have hact := harmless_act_iff answers a hqueue hcontext
    constructor
    · rintro ⟨hharmless, hrest⟩
      exact ⟨hact.mp hharmless, setup_act a ▸ (ih hharmless.queue hharmless.context).mp hrest⟩
    · rintro ⟨hserves, hrest⟩
      have hharmless := hact.mpr hserves
      refine ⟨hharmless, (ih hharmless.queue hharmless.context).mpr ?_⟩
      rwa [setup_act]

/-- `initView` got to its end, with a core that is initialized. -/
def Outcome.Succeeds (w : Outcome) : Prop :=
  0 ≤ w.initializeStatus ∧ w.hasSubApi = true ∧ 0 ≤ w.initGlStatus

/-- Where nothing is missing and `initView` succeeds each time, every sequence is safe. -/
theorem spares_of_succeeds {u : Setup} (hqueue : u.queue = true) (hcore : u.core = true)
    (hcontext : u.context = true) {as : List Action}
    (has : ∀ h w, Action.initView h w ∈ as → w.Succeeds) : u.Spares as := by
  induction as generalizing u with
  | nil => trivial
  | cons a as ih =>
    have hrest (h : Handle) (w : Outcome) (hw : Action.initView h w ∈ as) : w.Succeeds :=
      has h w (List.mem_cons_of_mem _ hw)
    constructor
    · rintro c - -
      cases c <;> simp [Setup.Serves, hqueue, hcore, hcontext]
    · cases a with
      | initView h w =>
        obtain ⟨hinit, hsub, hgl⟩ := has h w List.mem_cons_self
        exact ih (by simp [Setup.after, hsub, hgl]) (by simp [Setup.after, hinit]) hsub hrest
      | call c => cases c <;> exact ih hqueue hcore hcontext hrest

/-- After `initView`, whatever its outcome, a sequence of calls is safe exactly if each
    call that is made while the handle is there finds what it takes for granted. -/
theorem safe_initView_iff (answers : Nat → Answer) (o : Object) (queue : Bool) (h : Handle)
    (w : Outcome) (as : List Action) :
    Safe answers { obj := o, queue := queue } (.initView h w :: as) ↔
      Setup.Spares ⟨true, o.url, queue || (w.hasSubApi && 0 ≤ w.initGlStatus),
        0 ≤ w.initializeStatus, w.hasSubApi⟩ as := by
  rw [safe_iff (s := { obj := o, queue := queue }) _ rfl rfl]
  exact and_iff_right nofun

/-- `mpv_initialize` fails, so there is no context, and `shutDown` passes `NULL` on. -/
theorem not_safe_shutDown :
    ¬ ∀ (answers : Nat → Answer) (o : Object) (queue : Bool) (h : Handle) (w : Outcome)
      (as : List Action), Safe answers { obj := o, queue := queue } (.initView h w :: as) := by
  intro h
  have hsafe := h (fun _ => {}) {} false 1 ⟨-2, false, 0⟩ [.call .shutDown]
  rw [safe_iff (s := { obj := {}, queue := false }) _ rfl rfl] at hsafe
  have hcontext := hsafe.2.1 .shutDown rfl rfl
  cases hcontext

end Initialization
