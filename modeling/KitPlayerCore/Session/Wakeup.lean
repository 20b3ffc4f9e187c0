-- SUMMARY: mpv's wakeups, the wakeup callback, and the loop of `readEvents`, as a machine.
import KitPlayerCore.Core.Status
import KitPlayerCore.Mpv.EventQueue

/-!
# Wakeups

mpv's threads post events and wake the client up. The wakeup callback dispatches
a `readEvents` block unless `isStopEvent` is set, and the loop of the block takes
events until there is none, or until it finds `isStopEvent` set. The application
may write `isStopEvent` at any time.
-/

namespace Wakeup

open Core Mpv Transition

/-- The post of an event that is under way. It holds the lock of the handle. -/
inductive Post where
  /-- The event is in the ring; about to call `wakeup_client`. -/
  | waking (e : Event)
  /-- In the wakeup callback. -/
  | calling (e : Event)
  deriving DecidableEq, Repr

def Post.event : Post → Event
  | .waking e | .calling e => e

/-- What the queue runs. -/
inductive Worker where
  | idle
  /-- The code of the block, or the part of it that is left. -/
  | run (p : Core Bool)
  /-- In `mpv_wait_event`, about to look at the ring. -/
  | enter (k : Event → Core Bool)
  /-- In `wait_wakeup`, about to lock `wakeup_lock`. The ring was empty. -/
  | waitWakeup (k : Event → Core Bool)
  /-- In `pthread_cond_timedwait`. -/
  | timedWait (k : Event → Core Bool)

/-- The state while the handle is live. The last two fields record the events
    whose post is complete and the events of the ring passed to `handleEvent:`, as
    `enters_of_step` says. -/
structure State where
  record : Record
  events : EventQueue := {}
  post : Option Post := none
  /-- What is left of the wakeup callback, which runs under `wakeup_lock`. -/
  callback : Option (Core Unit) := none
  /-- How many `readEvents` blocks are pending. -/
  pending : Nat := 0
  worker : Worker := .idle
  posted : List Event := []
  handled : List Event := []

inductive Label where
  /-- A thread of mpv posts an event. -/
  | post (e : Event)
  /-- The posting thread goes on to `wakeup_client`. -/
  | wakePost
  /-- `wakeup_client` is called for something else than an event of the ring. -/
  | wakeOther
  /-- The wakeup callback goes on. -/
  | callback
  /-- The application writes `isStopEvent`. -/
  | setIsStopEvent (b : Bool)
  /-- The queue takes the next block. -/
  | take
  /-- The queue goes on. When the ring is empty, `mpv_wait_event` may have an event
      `other` that is not from the ring, and the timed wait may be over. -/
  | work (other : Option Event) (timedOut : Bool)

namespace State

/-- The events whose post is under way. -/
def underWay (s : State) : List Event := s.post.toList.map Post.event

/-- `send_event` up to the call of `wakeup_client`. -/
def send (s : State) (e : Event) : State :=
  match s.events.append e with
  | (q, true) => { s with events := q, post := some (.waking e) }
  | (q, false) => { s with events := q }

/-- The post of `e` is complete. -/
def complete (s : State) (e : Event) : State :=
  { s with post := none, posted := s.posted ++ [e] }

/-- `need_wakeup` becomes true, and the callback is called. -/
def callBack (s : State) : State :=
  { s with events := { s.events with needWakeup := true }, callback := some Core.wakeup }

/-- The wakeup callback has returned, and with it the post that called it. -/
def endCallback (s : State) : State :=
  match s.post with
  | some (.calling e) => { s with callback := none }.complete e
  | _ => { s with callback := none }

/-- An operation of the code, other than `mpv_wait_event`. The delegate makes no
    calls that concern events. -/
def perform (s : State) : (op : Op) → op.Res × State
  | .dispatch .readEvents => ((), { s with pending := s.pending + 1 })
  | op => ((Record.perform op s.record).1, { s with record := (Record.perform op s.record).2 })

/-- The next step of the queue. -/
def work (s : State) (other : Option Event) (timedOut : Bool) : Option State :=
  match s.worker with
  | .idle => none
  | .run (.ret true) => some { s with worker := .run readEventsPass }
  | .run (.ret false) => some { s with worker := .idle }
  | .run (.act (.call _ .waitEvent) k) => some { s with worker := .enter k }
  | .run (.act op k) => some { (s.perform op).2 with worker := .run (k (s.perform op).1) }
  | .enter k =>
    -- a post that is under way holds the lock of the handle
    if s.post ≠ none then none
    else match s.events.next, other with
      | some (e, q), _ =>
        some { s with
          events := q
          worker := .run (k e)
          handled := s.handled ++ s.events.ring.take 1 }
      | none, some e =>
        if e.eventId = .none then none else some { s with worker := .run (k e) }
      | none, none => some { s with worker := .waitWakeup k }
  | .waitWakeup k =>
    if s.callback.isSome then none
    else if s.events.needWakeup then
      some { s with events := { s.events with needWakeup := false }, worker := .enter k }
    else some { s with worker := .timedWait k }
  | .timedWait k =>
    -- it returns with wakeup_lock locked
    if s.callback.isSome then none
    else if timedOut then some { s with worker := .run (k ⟨.none, .none⟩) }
    else some { s with events := { s.events with needWakeup := false }, worker := .enter k }

end State

def step (s : State) : Label → Option State
  | .post e => if s.post = none ∧ e.eventId ≠ .none then some (s.send e) else none
  | .wakePost =>
    match s.post, s.callback with
    | some (.waking e), none =>
      some (if s.events.needWakeup then s.complete e
        else { s with post := some (.calling e) }.callBack)
    | _, _ => none
  | .wakeOther =>
    if s.callback.isSome then none
    else some (if s.events.needWakeup then s else s.callBack)
  | .callback =>
    match s.callback with
    | none => none
    | some (.ret _) => some s.endCallback
    | some (.act op k) => some { (s.perform op).2 with callback := some (k (s.perform op).1) }
  | .setIsStopEvent b =>
    some { s with record := { s.record with obj := { s.record.obj with isStopEvent := b } } }
  | .take =>
    match s.worker, s.pending with
    | .idle, n + 1 => some { s with pending := n, worker := .run readEventsPass }
    | _, _ => none
  | .work other timedOut => s.work other timedOut

/-- Right after a successful `initView`. Earlier events may be in the ring. -/
def State.afterInitView (h : Handle) (o : Object) (ring : List Event) (needWakeup : Bool) :
    State where
  record := { obj := { o with mpv := some h } }
  events := { ring := ring, needWakeup := needWakeup }
  pending := (registered o).length
  posted := ring

def wakeups : Machine State Label where
  init s := ∃ h o ring needWakeup, (∀ e ∈ ring, e.eventId ≠ .none) ∧
    s = .afterInitView h o ring needWakeup
  step := step

/-! ## The code of the block -/

/-- Where the loop of `readEvents` is headed. -/
inductive Course where
  /-- For another pass. -/
  | going
  /-- For its end. -/
  | leaving
  deriving DecidableEq, Repr

@[simp] def Course.ok : Course → Op → Prop
  | .leaving, _ => False
  | .going, .set .mpv _ => False
  | .going, .call _ f => f = .waitEvent
  | .going, .dispatch _ => False
  | .going, _ => True

@[simp] def Course.admits : Course → (op : Op) → op.Res → Prop
  | _, .get .mpv, r => r ≠ none
  | _, _, _ => True

/-- The loop is left where `isStopEvent` is found set, or where there is no event. -/
@[simp] def Course.next : Course → (op : Op) → op.Res → Course → Prop
  | _, .get .isStopEvent, r, m => m = if r = true then .leaving else .going
  | _, .call _ .waitEvent, e, m => m = if e.eventId = .none then .leaving else .going
  | m, _, _, m' => m' = m

def loopRules : Program.Rules Op Op.Res Course := ⟨Course.ok, Course.admits, Course.next⟩

@[simp] theorem loopRules_ok : loopRules.ok = Course.ok := rfl

@[simp] theorem loopRules_admits : loopRules.admits = Course.admits := rfl

@[simp] theorem loopRules_next : loopRules.next = Course.next := rfl

/-- What is left of the block heads for another pass, or is at its end. -/
def Follows (p : Core Bool) (m : Course) : Prop :=
  p.Safe loopRules (fun again m => again = decide (m = .going)) m

theorem follows_leaving {p : Core Bool} (h : Follows p .leaving) : p = .ret false := by
  cases p with
  | ret again =>
    have : again = false := h
    rw [this]
  | act op k => exact h.1.elim

theorem follows_ret {again : Bool} (h : Follows (.ret again) .going) : again = true := h

theorem handleEvent_follows (event : Event) :
    Follows (handleEvent event >>= fun _ => .ret true) .going := by
  simp only [Follows, handleEvent, runCoreEvent, Program.safe_bind]
  split <;> simp

theorem readEventsPass_follows : Follows readEventsPass .going := by
  have hevent (event : Event) (he : event.eventId ≠ .none) :
      (handleEvent event >>= fun _ => .ret true).Safe loopRules
        (fun again m => again = decide (m = .going))
        (if event.eventId = .none then .leaving else .going) := by
    rw [if_neg he]
    exact handleEvent_follows event
  simp [Follows, readEventsPass]
  exact fun r hr => ⟨hr, fun _ _ _ event he => by simpa using hevent event he⟩

/-- Where an event that is returned to the loop sends it. -/
def course (e : Event) : Course := if e.eventId = .none then .leaving else .going

namespace Worker

/-- The queue will look at the ring, unless the loop finds `isStopEvent` set before. -/
def Looks : Worker → Prop
  | .run p => p ≠ .ret false
  | .enter _ | .waitWakeup _ => True
  | .idle | .timedWait _ => False

/-- The queue runs what is left of the block of `readEvents`. -/
def Sound : Worker → Prop
  | .idle => True
  | .run p => Follows p .going ∨ p = .ret false
  | .enter k | .waitWakeup k | .timedWait k => ∀ e, Follows (k e) (course e)

theorem looks_of_follows {p : Core Bool} (h : Follows p .going) : (Worker.run p).Looks := by
  rintro rfl
  cases follows_ret h

theorem Sound.resume {k : Event → Core Bool} (h : ∀ e, Follows (k e) (course e)) (e : Event) :
    Sound (.run (k e)) := by
  have he := h e
  unfold course at he
  split at he
  · exact .inr (follows_leaving he)
  · exact .inl he

end Worker

/-! ## Runs -/

namespace State

/-- The callback is about to test `isStopEvent` or to dispatch a block. -/
def OnItsWay (s : State) : Prop := ∃ op k, s.callback = some (.act op k)

/-- Every event in the ring is one whose post is under way. -/
def Settled (s : State) : Prop := s.events.ring = s.underWay

/-- A block is pending, or the running one will look at the ring. -/
def Attended (s : State) : Prop := 0 < s.pending ∨ s.worker.Looks

/-- Nothing that is to be reported goes unnoticed: it is attended to, or there is
    nothing yet, and the next event is going to be reported. -/
def Expects (s : State) : Prop :=
  s.Attended ∨ (s.Settled ∧ (s.events.needWakeup = false ∨ s.OnItsWay))

end State

/-- The ring does not overflow, and `isStopEvent` is not set back to false while an
    event, or the next one, would go unnoticed. -/
def Heeded (s : State) : Label → Prop
  | .post _ => s.events.ring.length < EventQueue.maxEvents
  | .setIsStopEvent false => s.Expects
  | _ => True

/-- What holds whatever the application does to `isStopEvent`. -/
structure Regular (s : State) : Prop where
  mpv : s.record.obj.mpv ≠ none
  choked : s.events.choked = false
  worker : s.worker.Sound
  present : ∀ e ∈ s.events.ring, e.eventId ≠ .none
  callback : ∀ p, s.callback = some p → p = Core.wakeup ∨ p = readEvents ∨ p = .ret ()
  calling : ∀ e, s.post = some (.calling e) → s.callback ≠ none
  called : s.callback ≠ none → s.events.needWakeup = true
  order : s.handled ++ s.events.ring = s.posted ++ s.underWay
  waiting : ∀ k, s.worker = .waitWakeup k → s.Settled ∨ s.events.needWakeup = true

structure Heard (s : State) : Prop extends Regular s where
  expects : s.record.obj.isStopEvent = false → s.Expects

theorem Heard.afterInitView (h : Handle) (o : Object) {ring : List Event} (needWakeup : Bool)
    (hring : ∀ e ∈ ring, e.eventId ≠ .none) : Heard (.afterInitView h o ring needWakeup) where
  mpv := nofun
  choked := rfl
  worker := trivial
  present := hring
  callback := nofun
  calling := nofun
  called h := absurd rfl h
  order := by simp [State.afterInitView, State.underWay]
  waiting := nofun
  expects hstop := .inl (.inl (by
    have hstop : o.isStopEvent = false := hstop
    simp [State.afterInitView, registered, hstop]))

/-- Where no block is pending or running, every posted event was handled. -/
theorem Heard.handled_eq {s : State} (h : Heard s) (hstop : s.record.obj.isStopEvent = false)
    (hp : s.pending = 0) (hw : s.worker = .idle) : s.handled = s.posted := by
  have hsettled : s.Settled := by
    rcases h.expects hstop with (hp' | hlook) | ⟨hsettled, _⟩
    · omega
    · rw [hw] at hlook
      exact hlook.elim
    · exact hsettled
  have horder := h.order
  rw [hsettled] at horder
  exact List.append_cancel_right horder

/-! ## Steps -/

namespace State

/-- A state in which the callback is over and `need_wakeup` is left set. -/
theorem Expects.attended {s : State} (h : s.Expects) (hneed : s.events.needWakeup = true)
    (hway : ¬ s.OnItsWay) : s.Attended := by
  rcases h with hatt | ⟨-, hneed' | hway'⟩
  · exact hatt
  · rw [hneed] at hneed'
    cases hneed'
  · exact absurd hway' hway

end State

theorem Heard.post {s s' : State} {e : Event} (h : Heard s) (hg : Heeded s (.post e))
    (hs : step s (.post e) = some s') : Heard s' := by
  simp only [step, Option.ite_none_right_eq_some, Option.some.injEq] at hs
  obtain ⟨⟨hpost, hne⟩, rfl⟩ := hs
  have happend := EventQueue.append_of_room (e := e) h.choked hg
  have hunder : s.underWay = [] := by simp [State.underWay, hpost]
  -- the new event is the one whose post is under way
  have hsettled : s.Settled → (s.send e).Settled := by
    intro hsettled
    rw [State.Settled, hunder] at hsettled
    simp [State.send, happend, State.Settled, State.underWay, Post.event, hsettled]
  have hrest : s.send e = { s with
      events := { s.events with ring := s.events.ring ++ [e] }, post := some (.waking e) } := by
    simp [State.send, happend]
  rw [hrest] at hsettled ⊢
  refine ⟨⟨h.mpv, h.choked, h.worker, ?_, h.callback, nofun, h.called, ?_, ?_⟩, ?_⟩
  · intro e' he'
    rcases List.mem_append.mp he' with he' | he'
    · exact h.present e' he'
    · exact List.mem_singleton.mp he' ▸ hne
  · have horder := h.order
    rw [hunder, List.append_nil] at horder
    simp [State.underWay, Post.event, ← horder]
  · exact fun k hk => (h.waiting k hk).imp_left hsettled
  · exact fun hstop => (h.expects hstop).imp_right fun hrest => ⟨hsettled hrest.1, hrest.2⟩

/-- A post that is complete while no callback is on its way has been noticed. -/
theorem Heard.complete {s : State} {e : Event} (h : Heard s) (hneed : s.events.needWakeup = true)
    (hway : ¬ s.OnItsWay) (he : s.underWay = [e]) {callback : Option (Core Unit)}
    (hcb : callback = none) : Heard ({ s with callback := callback }.complete e) := by
  subst hcb
  refine ⟨⟨h.mpv, h.choked, h.worker, h.present, nofun, nofun, fun hn => absurd rfl hn, ?_,
    fun _ _ => .inr hneed⟩, fun hstop => .inl ((h.expects hstop).attended hneed hway)⟩
  have horder := h.order
  rw [he] at horder
  simpa [State.complete, State.underWay] using horder

theorem Heard.callBack {s : State} (h : Heard s) {post : Option Post}
    (hpost : post.toList.map Post.event = s.underWay) :
    Heard { s with post := post }.callBack := by
  have hsettled : s.Settled → ({ s with post := post } : State).callBack.Settled := by
    intro hsettled
    simpa [State.Settled, State.underWay, State.callBack, hpost] using hsettled
  refine ⟨⟨h.mpv, h.choked, h.worker, h.present, ?_, nofun, fun _ => rfl, ?_, fun _ _ => .inr rfl⟩,
    fun hstop => (h.expects hstop).imp_right fun hrest => ⟨hsettled hrest.1, .inr ⟨_, _, rfl⟩⟩⟩
  · rintro p hp
    cases hp
    exact .inl rfl
  · simpa [State.underWay, State.callBack, hpost] using h.order

theorem Heard.wakePost {s s' : State} (h : Heard s) (hs : step s .wakePost = some s') :
    Heard s' := by
  simp only [step] at hs
  split at hs
  · rename_i e hpost hcb
    cases hs
    have hunder : s.underWay = [e] := by simp [State.underWay, hpost, Post.event]
    split
    · rename_i hneed
      have hway : ¬ s.OnItsWay := by
        rintro ⟨op, k, hk⟩
        rw [hcb] at hk
        cases hk
      exact h.complete hneed hway hunder hcb
    · exact h.callBack (by simp [hunder, Post.event])
  · cases hs

theorem Heard.wakeOther {s s' : State} (h : Heard s) (hs : step s .wakeOther = some s') :
    Heard s' := by
  simp only [step] at hs
  split at hs
  · cases hs
  · cases hs
    split
    · exact h
    · exact h.callBack rfl

/-- What is left of the callback after its test of `isStopEvent`. -/
theorem wakeup_tested (s : State) :
    step { s with callback := some Core.wakeup } .callback =
      some { s with
        callback := some (if s.record.obj.isStopEvent then .ret () else readEvents) } := by
  cases hv : s.record.obj.isStopEvent <;>
    simp [step, Core.wakeup, State.perform, Record.perform, Object.get, hv]

theorem Heard.runCallback {s s' : State} (h : Heard s) (hs : step s .callback = some s') :
    Heard s' := by
  cases hcb : s.callback with
  | none => simp [step, hcb] at hs
  | some p =>
    have hneed : s.events.needWakeup = true := h.called (by simp [hcb])
    have hself : s = { s with callback := some p } := by rw [← hcb]
    rcases h.callback p hcb with rfl | rfl | rfl
    · rw [hself, wakeup_tested, Option.some.injEq] at hs
      subst hs
      refine ⟨⟨h.mpv, h.choked, h.worker, h.present, ?_, fun _ _ => Option.some_ne_none _,
        fun _ => hneed, h.order, h.waiting⟩, ?_⟩
      · rintro p hp
        cases hp
        split
        · exact .inr (.inr rfl)
        · exact .inr (.inl rfl)
      · intro hstop
        have hgo : s.record.obj.isStopEvent = false := hstop
        refine (h.expects hstop).imp_right fun hrest => ⟨hrest.1, .inr ?_⟩
        simp [State.OnItsWay, hgo, readEvents, Program.perform]
    · rw [hself] at hs
      cases hs
      refine ⟨⟨h.mpv, h.choked, h.worker, h.present, ?_, fun _ _ => Option.some_ne_none _,
        fun _ => hneed, h.order, h.waiting⟩, fun _ => .inl (.inl (Nat.succ_pos _))⟩
      rintro p hp
      cases hp
      exact .inr (.inr rfl)
    · have hway : ¬ s.OnItsWay := by
        rintro ⟨op, k, hk⟩
        rw [hcb] at hk
        cases hk
      simp only [step, hcb, Option.some.injEq, State.endCallback] at hs
      split at hs
      · rename_i e hpost
        subst hs
        exact h.complete hneed hway (by simp [State.underWay, hpost, Post.event]) rfl
      · rename_i hpost
        subst hs
        refine ⟨⟨h.mpv, h.choked, h.worker, h.present, ?_, fun e he => absurd he (hpost e),
          fun hn => absurd rfl hn, h.order, h.waiting⟩, fun hstop => ?_⟩
        · intro p hp
          cases hp
        · exact .inl ((h.expects hstop).attended hneed hway)

theorem Heard.setIsStopEvent {s s' : State} {b : Bool} (h : Heard s)
    (hg : Heeded s (.setIsStopEvent b)) (hs : step s (.setIsStopEvent b) = some s') :
    Heard s' := by
  cases hs
  refine ⟨⟨h.mpv, h.choked, h.worker, h.present, h.callback, h.calling, h.called, h.order,
    h.waiting⟩, ?_⟩
  rintro rfl
  exact hg

/-- The queue goes on in a way that makes it look at the ring, unless `isStopEvent`
    is set. -/
theorem Heard.look {s : State} (h : Heard s) {record : Record} {pending : Nat} {w : Worker}
    (hmpv : record.obj.mpv ≠ none) (hw : w.Sound)
    (hlook : record.obj.isStopEvent = false → w.Looks) (hwait : ∀ k, w ≠ .waitWakeup k) :
    Heard { s with record := record, pending := pending, worker := w } :=
  ⟨⟨hmpv, h.choked, hw, h.present, h.callback, h.calling, h.called, h.order,
    fun k hk => absurd hk (hwait k)⟩, fun hstop => .inl (.inr (hlook hstop))⟩

/-- The queue goes on after it had no reason to look at the ring. -/
theorem Heard.unlook {s : State} (h : Heard s) {w : Worker} (hw : w.Sound)
    (hlook : ¬ s.worker.Looks) (hwait : ∀ k, w ≠ .waitWakeup k) : Heard { s with worker := w } :=
  ⟨⟨h.mpv, h.choked, hw, h.present, h.callback, h.calling, h.called, h.order,
    fun k hk => absurd hk (hwait k)⟩, fun hstop =>
      (h.expects hstop).imp_left fun hatt => .inl (hatt.resolve_right hlook)⟩

theorem Heard.take {s s' : State} (h : Heard s) (hs : step s .take = some s') : Heard s' := by
  simp only [step] at hs
  split at hs
  · cases hs
    have hfollows := readEventsPass_follows
    exact h.look h.mpv (.inl hfollows) (fun _ => Worker.looks_of_follows hfollows) nofun
  · cases hs

/-- A statement of the block other than a call of mpv. -/
theorem Heard.perform {s : State} {op : Op} {k : op.Res → Core Bool} (h : Heard s)
    (hw : s.worker = .run (.act op k)) (hcall : ∀ hd f, op ≠ .call hd f) :
    Heard { (s.perform op).2 with worker := .run (k (s.perform op).1) } := by
  obtain ⟨hok, hk⟩ : Follows (.act op k) .going := by
    have hsound := h.worker
    rw [hw] at hsound
    exact hsound.resolve_right nofun
  -- the block goes on, and will look at the ring
  have hgo {record : Record} (hmpv : record.obj.mpv ≠ none) {r : op.Res}
      (hr : Follows (k r) .going) : Heard { s with record := record, worker := .run (k r) } :=
    h.look hmpv (.inl hr) (fun _ => Worker.looks_of_follows hr) nofun
  cases op with
  | get v =>
    by_cases hv : v = .isStopEvent
    · subst hv
      have hnext : Follows (k s.record.obj.isStopEvent)
          (if s.record.obj.isStopEvent = true then .leaving else .going) := hk _ trivial _ rfl
      refine h.look h.mpv ?_ (fun hstop => ?_) nofun
      · split at hnext
        · exact .inr (follows_leaving hnext)
        · exact .inl hnext
      · have hclear : s.record.obj.isStopEvent = false := hstop
        rw [if_neg (by simp [hclear])] at hnext
        exact Worker.looks_of_follows hnext
    · have hadmits : Course.admits .going (.get v) (s.record.obj.get v) := by
        cases v with
        | mpv => exact h.mpv
        | _ => trivial
      refine hgo h.mpv (hk _ hadmits .going ?_)
      cases v <;> first | rfl | exact absurd rfl hv
  | set v x =>
    refine hgo ?_ (hk () trivial .going rfl)
    cases v with
    | mpv => exact hok.elim
    | _ => exact h.mpv
  | call hd f => exact absurd rfl (hcall hd f)
  | dispatch b => exact hok.elim
  | deliver status =>
    refine hgo ?_ (hk () trivial .going rfl)
    exact h.mpv
  | lock l | unlock l | glCall f | free p | inDelegate =>
    exact hgo h.mpv (hk () trivial .going rfl)
  | initWithCString p => exact hgo h.mpv (hk _ trivial .going rfl)
  | uninitialized => exact hgo h.mpv (hk _ trivial .going rfl)

theorem Heard.runBlock {s s' : State} {p : Core Bool} {other : Option Event} {timedOut : Bool}
    (h : Heard s) (hw : s.worker = .run p) (hs : s.work other timedOut = some s') : Heard s' := by
  have hsound : Follows p .going ∨ p = .ret false := by
    have hsound := h.worker
    rwa [hw] at hsound
  simp only [State.work, hw] at hs
  cases p with
  | ret again =>
    cases again with
    | true =>
      cases hs
      have hfollows := readEventsPass_follows
      exact h.look h.mpv (.inl hfollows) (fun _ => Worker.looks_of_follows hfollows) nofun
    | false =>
      cases hs
      refine h.unlook trivial ?_ nofun
      rw [hw]
      exact fun hne => hne rfl
  | act op k =>
    cases op with
    | call hd f =>
      obtain ⟨rfl, hk⟩ := hsound.resolve_right nofun
      cases hs
      exact h.look h.mpv (fun e => hk e trivial _ rfl) (fun _ => trivial) nofun
    | _ =>
      cases hs
      exact h.perform hw nofun

/-- In `mpv_wait_event`, at the ring. -/
theorem Heard.enter {s s' : State} {k : Event → Core Bool} {other : Option Event}
    {timedOut : Bool} (h : Heard s) (hw : s.worker = .enter k)
    (hs : s.work other timedOut = some s') : Heard s' := by
  have hsound : ∀ e, Follows (k e) (course e) := by
    have hsound := h.worker
    rwa [hw] at hsound
  -- an event that is not `NONE` makes the loop go on
  have hgo {e : Event} (he : e.eventId ≠ .none) : Follows (k e) .going := by
    have hfollows := hsound e
    rwa [course, if_neg he] at hfollows
  simp only [State.work, hw, ite_not, Option.ite_none_right_eq_some] at hs
  obtain ⟨hpost, hs⟩ := hs
  cases hring : s.events.ring with
  | cons e es =>
    simp only [EventQueue.next, hring, Option.some.injEq] at hs
    have he : e.eventId ≠ .none := h.present e (hring ▸ List.mem_cons_self)
    subst hs
    refine ⟨⟨h.mpv, h.choked, .inl (hgo he), ?_, h.callback, h.calling, h.called, ?_, nofun⟩,
      fun _ => .inl (.inr (Worker.looks_of_follows (hgo he)))⟩
    · exact fun e' he' => h.present e' (hring ▸ List.mem_cons_of_mem _ he')
    · have horder := h.order
      rw [hring] at horder
      simpa [State.underWay] using horder
  | nil =>
    rw [(EventQueue.next_eq_none_iff h.choked).mpr hring] at hs
    cases other with
    | some e =>
      simp only [Option.ite_none_left_eq_some, Option.some.injEq] at hs
      obtain ⟨he, rfl⟩ := hs
      exact h.look h.mpv (.inl (hgo he)) (fun _ => Worker.looks_of_follows (hgo he)) nofun
    | none =>
      cases hs
      have hsettled : s.Settled := by simp [State.Settled, State.underWay, hring, hpost]
      exact ⟨⟨h.mpv, h.choked, hsound, h.present, h.callback, h.calling, h.called, h.order,
        fun _ _ => .inl hsettled⟩, fun _ => .inl (.inr trivial)⟩

/-- In `wait_wakeup`, with `wakeup_lock`: the client looks again where a wakeup is due. -/
theorem Heard.waitWakeup {s s' : State} {k : Event → Core Bool} {other : Option Event}
    {timedOut : Bool} (h : Heard s) (hw : s.worker = .waitWakeup k)
    (hs : s.work other timedOut = some s') : Heard s' := by
  have hsound : ∀ e, Follows (k e) (course e) := by
    have hsound := h.worker
    rwa [hw] at hsound
  simp only [State.work, hw] at hs
  split at hs
  · cases hs
  · rename_i hcb
    have hnone : s.callback = none := by simpa using hcb
    split at hs
    · cases hs
      exact ⟨⟨h.mpv, h.choked, hsound, h.present, h.callback, h.calling,
        fun hn => absurd hnone hn, h.order, nofun⟩, fun _ => .inl (.inr trivial)⟩
    · rename_i hneed
      cases hs
      have hsettled := (h.waiting k hw).resolve_right hneed
      exact ⟨⟨h.mpv, h.choked, hsound, h.present, h.callback, h.calling, h.called, h.order,
        nofun⟩, fun _ => .inr ⟨hsettled, .inl (by simpa using hneed)⟩⟩

theorem Heard.timedWait {s s' : State} {k : Event → Core Bool} {other : Option Event}
    {timedOut : Bool} (h : Heard s) (hw : s.worker = .timedWait k)
    (hs : s.work other timedOut = some s') : Heard s' := by
  have hsound : ∀ e, Follows (k e) (course e) := by
    have hsound := h.worker
    rwa [hw] at hsound
  simp only [State.work, hw] at hs
  split at hs
  · cases hs
  · rename_i hcb
    have hnone : s.callback = none := by simpa using hcb
    split at hs
    · cases hs
      refine h.unlook (Worker.Sound.resume hsound _) ?_ nofun
      rw [hw]
      exact id
    · cases hs
      exact ⟨⟨h.mpv, h.choked, hsound, h.present, h.callback, h.calling,
        fun hn => absurd hnone hn, h.order, nofun⟩, fun _ => .inl (.inr trivial)⟩

theorem Heard.work {s s' : State} {other : Option Event} {timedOut : Bool} (h : Heard s)
    (hs : s.work other timedOut = some s') : Heard s' := by
  cases hw : s.worker with
  | idle => simp [State.work, hw] at hs
  | run p => exact h.runBlock hw hs
  | enter k => exact h.enter hw hs
  | waitWakeup k => exact h.waitWakeup hw hs
  | timedWait k => exact h.timedWait hw hs

theorem Heard.step {s s' : State} {l : Label} (h : Heard s) (hg : Heeded s l)
    (hs : step s l = some s') : Heard s' := by
  cases l with
  | post e => exact h.post hg hs
  | wakePost => exact h.wakePost hs
  | wakeOther => exact h.wakeOther hs
  | callback => exact h.runCallback hs
  | setIsStopEvent b => exact h.setIsStopEvent hg hs
  | take => exact h.take hs
  | work other timedOut => exact h.work hs

theorem heard_of_heeded {s : State} (h : wakeups.Under Heeded s) : Heard s := by
  refine h.invariant ?_ fun s s' l hs hg hstep => hs.step hg hstep
  rintro s ⟨hd, o, ring, needWakeup, hring, rfl⟩
  exact .afterInitView hd o needWakeup hring

/-! ## Where an event is handled -/

/-- What the loop does with the event that `mpv_wait_event` returns. -/
def resume (event : Event) : Core Bool :=
  if event.eventId = .none then .ret false else handleEvent event >>= fun _ => .ret true

theorem resume_of_ne {e : Event} (he : e.eventId ≠ .none) :
    resume e = handleEvent e >>= fun _ => .ret true := if_neg he

/-- Where `mpv_wait_event` is called, the loop goes on with what it returns. -/
def Resumes : Core Bool → Prop
  | .ret _ => True
  | .act (.call _ .waitEvent) k => k = resume
  | .act _ k => ∀ r, Resumes (k r)

theorem resumes_ite {c : Prop} [Decidable c] {p q : Core Bool} (hp : c → Resumes p)
    (hq : ¬ c → Resumes q) : Resumes (if c then p else q) := by
  split
  · exact hp ‹_›
  · exact hq ‹_›

theorem resume_resumes (event : Event) : Resumes (resume event) := by
  refine resumes_ite (fun _ => trivial) fun _ => ?_
  unfold handleEvent runCoreEvent
  split <;> simp [Resumes]

theorem Resumes.next {op : Op} {k : op.Res → Core Bool} (h : Resumes (.act op k))
    (hop : ∀ hd, op ≠ .call hd .waitEvent) (r : op.Res) : Resumes (k r) := by
  cases op with
  | call hd f => cases f with
    | waitEvent => exact absurd rfl (hop hd)
    | _ => exact h r
  | _ => exact h r

theorem readEventsPass_resumes : Resumes readEventsPass := by
  intro r
  exact resumes_ite (fun _ => trivial) fun _ _ => resumes_ite (fun _ => trivial) fun _ _ => rfl

/-- The queue runs the loop. -/
def Worker.InLoop : Worker → Prop
  | .idle => True
  | .run p => Resumes p
  | .enter k | .waitWakeup k | .timedWait k => k = resume

structure InLoop (s : State) : Prop where
  worker : s.worker.InLoop
  present : ∀ e ∈ s.events.ring, e.eventId ≠ .none

/-- The queue goes on with the handler of the event that is recorded, if one is. -/
def Enters (s s' : State) : Prop :=
  s'.handled = s.handled ∨ ∃ e, s'.handled = s.handled ++ [e] ∧
    s'.worker = .run (handleEvent e >>= fun _ => .ret true)

theorem InLoop.send {s : State} {e : Event} (h : InLoop s) (he : e.eventId ≠ .none) :
    InLoop (s.send e) ∧ Enters s (s.send e) := by
  have happend : ∀ e' ∈ (s.events.append e).1.ring, e'.eventId ≠ .none := by
    intro e' he'
    unfold EventQueue.append at he'
    split at he'
    · exact h.present e' he'
    · split at he'
      · obtain he' | he' := List.mem_append.mp he'
        · exact h.present e' he'
        · exact List.mem_singleton.mp he' ▸ he
      · exact h.present e' he'
  unfold State.send
  split
  · rename_i q happ
    exact ⟨⟨h.worker, by simpa [happ] using happend⟩, .inl rfl⟩
  · rename_i q happ
    exact ⟨⟨h.worker, by simpa [happ] using happend⟩, .inl rfl⟩

theorem perform_frame (s : State) (op : Op) :
    (s.perform op).2.worker = s.worker ∧ (s.perform op).2.events = s.events ∧
      (s.perform op).2.handled = s.handled := by
  unfold State.perform
  split <;> exact ⟨rfl, rfl, rfl⟩

theorem endCallback_frame (s : State) :
    s.endCallback.worker = s.worker ∧ s.endCallback.events = s.events ∧
      s.endCallback.handled = s.handled := by
  unfold State.endCallback
  split <;> exact ⟨rfl, rfl, rfl⟩

theorem InLoop.runBlock {s s' : State} {p : Core Bool} {other : Option Event} {timedOut : Bool}
    (h : InLoop s) (hw : s.worker = .run p) (hs : s.work other timedOut = some s') :
    InLoop s' ∧ Enters s s' := by
  have hresumes : Resumes p := by
    have hloop := h.worker
    rwa [hw] at hloop
  simp only [State.work, hw] at hs
  cases p with
  | ret again => cases again with
    | true =>
      cases hs
      exact ⟨⟨readEventsPass_resumes, h.present⟩, .inl rfl⟩
    | false =>
      cases hs
      exact ⟨⟨trivial, h.present⟩, .inl rfl⟩
  | act op k =>
    by_cases hop : ∃ hd, op = .call hd .waitEvent
    · obtain ⟨hd, rfl⟩ := hop
      cases hs
      exact ⟨⟨hresumes, h.present⟩, .inl rfl⟩
    · have hop := not_exists.mp hop
      obtain ⟨-, hevents, hhandled⟩ := perform_frame s op
      have heq : s' = { (s.perform op).2 with worker := .run (k (s.perform op).1) } := by
        cases op with
        | call hd f => cases f with
          | waitEvent => exact absurd rfl (hop hd)
          | _ => exact (Option.some.inj hs).symm
        | _ => exact (Option.some.inj hs).symm
      subst heq
      exact ⟨⟨hresumes.next hop _, by rw [hevents]; exact h.present⟩, .inl hhandled⟩

/-- In `mpv_wait_event`, at the ring. -/
theorem InLoop.enter {s s' : State} {k : Event → Core Bool} {other : Option Event}
    {timedOut : Bool} (h : InLoop s) (hw : s.worker = .enter k)
    (hs : s.work other timedOut = some s') : InLoop s' ∧ Enters s s' := by
  obtain rfl : k = resume := by
    have hloop := h.worker
    rwa [hw] at hloop
  simp only [State.work, hw, ite_not, Option.ite_none_right_eq_some] at hs
  obtain ⟨-, hs⟩ := hs
  cases hring : s.events.ring with
  | cons e es =>
    simp only [EventQueue.next, hring, Option.some.injEq] at hs
    subst hs
    have he := h.present e (hring ▸ List.mem_cons_self)
    refine ⟨⟨resume_resumes e, fun e' he' => ?_⟩, .inr ⟨e, rfl, ?_⟩⟩
    · exact h.present e' (hring ▸ List.mem_cons_of_mem _ he')
    · rw [resume_of_ne he]
  | nil =>
    cases hchoked : s.events.choked with
    | true =>
      -- the overflow is not an event of the ring
      simp only [EventQueue.next, hring, hchoked, if_true, Option.some.injEq] at hs
      subst hs
      exact ⟨⟨resume_resumes _, by rintro e ⟨⟩⟩, .inl (by simp)⟩
    | false =>
      simp only [EventQueue.next, hring, hchoked, Bool.false_eq_true, if_false] at hs
      cases other with
      | some e =>
        simp only [Option.ite_none_left_eq_some, Option.some.injEq] at hs
        obtain ⟨-, rfl⟩ := hs
        exact ⟨⟨resume_resumes e, h.present⟩, .inl rfl⟩
      | none =>
        cases hs
        exact ⟨⟨rfl, h.present⟩, .inl rfl⟩

theorem InLoop.work {s s' : State} {other : Option Event} {timedOut : Bool} (h : InLoop s)
    (hs : s.work other timedOut = some s') : InLoop s' ∧ Enters s s' := by
  have hloop := h.worker
  cases hw : s.worker with
  | enter k => exact h.enter hw hs
  | idle => simp [State.work, hw] at hs
  | run p => exact h.runBlock hw hs
  | waitWakeup k =>
    rw [hw] at hloop
    simp only [State.work, hw] at hs
    split at hs
    · cases hs
    · split at hs <;> cases hs <;> exact ⟨⟨hloop, h.present⟩, .inl rfl⟩
  | timedWait k =>
    rw [hw] at hloop
    obtain rfl : k = resume := hloop
    simp only [State.work, hw] at hs
    split at hs
    · cases hs
    · split at hs <;> cases hs
      · exact ⟨⟨resume_resumes _, h.present⟩, .inl rfl⟩
      · exact ⟨⟨rfl, h.present⟩, .inl rfl⟩

theorem InLoop.step {s s' : State} {l : Label} (h : InLoop s) (hs : step s l = some s') :
    InLoop s' ∧ Enters s s' := by
  have hsame {t : State} (hworker : t.worker = s.worker) (hring : t.events.ring = s.events.ring)
      (hhandled : t.handled = s.handled) : InLoop t ∧ Enters s t :=
    ⟨⟨hworker ▸ h.worker, hring ▸ h.present⟩, .inl hhandled⟩
  cases l with
  | post e =>
    simp only [Wakeup.step, Option.ite_none_right_eq_some, Option.some.injEq] at hs
    exact hs.2 ▸ h.send hs.1.2
  | wakePost =>
    simp only [Wakeup.step] at hs
    split at hs <;> cases hs
    split <;> exact hsame rfl rfl rfl
  | wakeOther =>
    simp only [Wakeup.step] at hs
    split at hs <;> cases hs
    split <;> exact hsame rfl rfl rfl
  | callback =>
    simp only [Wakeup.step] at hs
    split at hs <;> cases hs
    · obtain ⟨hworker, hevents, hhandled⟩ := endCallback_frame s
      exact hsame hworker (by rw [hevents]) hhandled
    · rename_i op k hcallback
      obtain ⟨hworker, hevents, hhandled⟩ := perform_frame s op
      exact hsame hworker (congrArg EventQueue.ring hevents) hhandled
  | setIsStopEvent b =>
    cases hs
    exact hsame rfl rfl rfl
  | take =>
    simp only [Wakeup.step] at hs
    split at hs <;> cases hs
    exact ⟨⟨readEventsPass_resumes, h.present⟩, .inl rfl⟩
  | work other timedOut => exact h.work hs

/-- In every run, an event of the ring is recorded where `handleEvent:` is entered with it. -/
theorem enters_of_step {s s' : State} {l : Label} (h : wakeups.Reachable s)
    (hs : step s l = some s') : Enters s s' := by
  refine (InLoop.step ?_ hs).2
  refine h.invariant ?_ fun _ _ _ h _ hs => (h.step hs).1
  rintro _ ⟨hd, o, ring, needWakeup, hring, rfl⟩
  exact ⟨trivial, hring⟩

/-! ## Main result -/

/-- In every run in which the ring does not overflow and the application sets
    `isStopEvent` back to false only where nothing goes unnoticed: while no block is
    pending or running, the posted events were handled, in their order. -/
theorem handled_eq_of_heeded {s : State} (h : wakeups.Under Heeded s)
    (hstop : s.record.obj.isStopEvent = false) (hp : s.pending = 0) (hw : s.worker = .idle) :
    s.handled = s.posted :=
  (heard_of_heeded h).handled_eq hstop hp hw

/-- A test that is enough for `Heeded`. -/
def heeds (s : State) : Label → Bool
  | .post _ => s.events.ring.length < EventQueue.maxEvents
  | .setIsStopEvent false => s.events.ring = s.underWay && !s.events.needWakeup
  | _ => true

theorem heeded_of_test (s : State) (l : Label) (h : heeds s l = true) : Heeded s l := by
  cases l with
  | post e =>
    have hlt : s.events.ring.length < EventQueue.maxEvents := of_decide_eq_true h
    exact hlt
  | setIsStopEvent b => cases b with
    | true => trivial
    | false =>
      simp only [heeds, Bool.and_eq_true, decide_eq_true_eq, Bool.not_eq_true'] at h
      exact .inr ⟨h.1, .inl h.2⟩
  | wakePost | wakeOther | callback | take | work => trivial

/-- The serial queue is idle, no block is pending, and `isStopEvent` is clear. -/
def State.rests (s : State) : Bool :=
  !s.record.obj.isStopEvent && s.pending = 0 && match s.worker with
    | .idle => true
    | _ => false

theorem State.rests_iff {s : State} :
    s.rests = true ↔ s.record.obj.isStopEvent = false ∧ s.pending = 0 ∧ s.worker = .idle := by
  unfold State.rests
  cases s.worker <;> simp

/-- The queue takes a block and goes on for `k` operations. -/
def takeBlock (k : Nat) : List Label := .take :: .replicate k (.work none true)

/-- A file is loaded before `initView` returns, and another one starts after its event
    has been handled, so that the callback is called. Then the flag is set and cleared. -/
theorem handled_eq_after_pass :
    ∃ s, wakeups.Under Heeded s ∧ s.posted = [⟨.fileLoaded, .none⟩, ⟨.startFile, .none⟩] ∧
      s.handled = s.posted := by
  obtain ⟨s, hs, hend⟩ := Machine.Under.execIf_any heeded_of_test
    (.init ⟨1, {}, _, false, by simp, rfl⟩ :
      wakeups.Under Heeded (.afterInitView 1 {} [⟨.fileLoaded, .none⟩] false))
    (takeBlock 14 ++ [.post ⟨.startFile, .none⟩, .wakePost, .callback, .callback, .callback] ++
      takeBlock 23 ++ [.setIsStopEvent true, .setIsStopEvent false])
    (p := fun s => s.rests && s.posted = [⟨.fileLoaded, .none⟩, ⟨.startFile, .none⟩])
    (by decide +kernel)
  simp only [Bool.and_eq_true, State.rests_iff, decide_eq_true_eq] at hend
  obtain ⟨⟨hstop, hpending, hworker⟩, hposted⟩ := hend
  exact ⟨s, hs, hposted, handled_eq_of_heeded hs hstop hpending hworker⟩

/-- An event is posted while `isStopEvent` is set. The callback dispatches nothing,
    and `need_wakeup` stays true, so that no later post calls it again. -/
theorem unhandled_after_stop :
    ¬ ∀ s, wakeups.Reachable s → s.record.obj.isStopEvent = false → s.pending = 0 →
      s.worker = .idle → s.handled = s.posted := by
  intro h
  obtain ⟨s, hs, hend⟩ := Machine.Reachable.exec_any
    (.init ⟨1, {}, [], false, nofun, rfl⟩ : wakeups.Reachable (.afterInitView 1 {} [] false))
    (.setIsStopEvent true :: takeBlock 3 ++
      [.post ⟨.fileLoaded, .none⟩, .wakePost, .callback, .callback, .setIsStopEvent false,
        .post ⟨.fileLoaded, .none⟩, .wakePost])
    (p := fun s => s.rests && s.handled ≠ s.posted) (by decide +kernel)
  simp only [Bool.and_eq_true, State.rests_iff, decide_eq_true_eq] at hend
  obtain ⟨⟨hstop, hpending, hworker⟩, hne⟩ := hend
  exact hne (h s hs hstop hpending hworker)

end Wakeup
