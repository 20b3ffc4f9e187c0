-- SUMMARY: What is reported, and what `isStopEvent` is, after a call of `shutDown` has returned.
import KitPlayerCore.Core.Effects
import KitPlayerCore.Session.Machine

/-!
# Silence

`shutDown` sets `isStopEvent`, and the loop of `readEvents` tests it before it waits for
the next event. Neither waits for the other: the queue may be anywhere in a pass of its
loop when `shutDown` returns, and the handler of `MPV_EVENT_START_FILE` clears the flag.
-/

namespace Silence

open Core Mpv Transition Program Session

/-- A session, with a record of its calls of `shutDown`. -/
structure State where
  session : Session.State
  /-- The last call of the thread was one of `shutDown`. -/
  stopping : Nat → Bool := fun _ => false
  /-- A call of `shutDown` has returned, on a thread other than the queue. -/
  returned : Bool := false
  /-- What was reported since. -/
  late : List EventStatus := []

namespace State

/-- `shutDown` ends where it unlocks `shutdownLock`. -/
def observe (s : State) : Thread → Op → State
  | .caller n, .unlock .shutdownLock => { s with returned := s.returned || s.stopping n }
  | _, .deliver status => { s with late := if s.returned then s.late ++ [status] else s.late }
  | _, _ => s

def record (s : State) : Label → State
  | .call n c => { s with stopping := Function.update s.stopping n (c matches .shutDown) }
  | .wakeup n => { s with stopping := Function.update s.stopping n false }
  | .run t _ =>
    match s.session.program t with
    | .ret _ => s
    | .act op _ => s.observe t op
  | .take | .again => s

end State

def step (s : State) (l : Label) : Option State :=
  (Session.step s.session l).map fun t => { s.record l with session := t }

def silence : Machine State Label where
  init s := ∃ t, session.init t ∧ s = { session := t }
  step := step

/-! ## The code of the queue -/

/-- What the handler of an event tests before it reports. -/
structure Flags where
  isManualStop : Bool
  isLoaded : Bool

/-- Nothing is reported and `isStopEvent` is not cleared. The handler assigns the other
    two flags only where it goes on to do one or the other. -/
@[simp] def ok : Op → Prop
  | .deliver _ => False
  | .set .isStopEvent x => x = true
  | .set .isManualStop x => x = true
  | .set .isLoaded _ => False
  | _ => True

/-- What is read while `isStopEvent` is set and no event is handled. A caller may come
    to set `isManualStop`. -/
@[simp] def admits (m : Flags) : (op : Op) → op.Res → Prop
  | .get .isStopEvent, r => r = true
  | .get .isManualStop, r => m.isManualStop = true → r = true
  | .get .isLoaded, r => r = m.isLoaded
  | _, _ => True

@[simp] def rules : Rules Op Op.Res Flags where
  ok _ := ok
  admits := admits
  next m _ _ m' := m' = m

/-- What is left of the pass that the queue is in reports nothing and does not clear
    `isStopEvent`. -/
def Hushed (m : Flags) (p : Core Bool) : Prop := Safe rules p (fun _ _ => True) m

/-- An event is handled silently. -/
def Flags.Silences (m : Flags) (e : Event) : Prop :=
  match e.eventId with
  | .startFile => False
  | .playbackRestart => m.isManualStop = true ∨ m.isLoaded = true
  | .endFile => m.isManualStop = true
  | _ => True

theorem hushed_handleEvent_iff (m : Flags) (e : Event) :
    Hushed m (handleEvent e >>= fun _ => .ret true) ↔ m.Silences e := by
  obtain ⟨isManualStop, isLoaded⟩ := m
  simp only [Hushed, handleEvent, runCoreEvent, Flags.Silences]
  cases e.eventId <;> cases isManualStop <;> cases isLoaded <;> simp

/-- Past the test of `isStopEvent` the queue may be given any event. -/
theorem not_hushed_waitEvent (m : Flags) (h : Option Handle) :
    ¬ Hushed m (.act (.call h .waitEvent) fun event =>
      if event.eventId = .none then .ret false else handleEvent event >>= fun _ => .ret true) := by
  intro hp
  have hstart := (safe_act _ _ _).mp hp |>.2 ⟨.startFile, .none⟩ trivial m rfl
  exact (hushed_handleEvent_iff m ⟨.startFile, .none⟩).mp hstart

theorem hushed_body (m : Flags) (b : Block) : Hushed m b.body := by
  cases b <;> simp [Hushed, Block.body, runCommand, readEventsPass]

/-! ## Where `shutDown` may return -/

/-- Where a call of `shutDown` returns, `isStopEvent` is set, and the pass that the queue
    is in is silent. Afterwards the application does not clear `isStopEvent`. -/
def Quiet (s : State) : Label → Prop
  | .run (.caller n) _ =>
    (∀ k, s.session.program (.caller n) = .act (.unlock .shutdownLock) k → s.stopping n = true →
      s.session.obj.isStopEvent = true ∧
        Hushed ⟨s.session.obj.isManualStop, s.session.obj.isLoaded⟩ (s.session.program .queue)) ∧
    (∀ k, s.session.program (.caller n) = .act (.set .isStopEvent false) k → s.returned = false)
  | .run .queue a => a.delegate = some (.setIsStopEvent false) → s.returned = false
  | _ => True

/-! ## The code of the callers -/

/-- What the callers do. -/
def callerOk : Op → Prop
  | .set .isStopEvent _ => True
  | op => methodOk op

theorem callerOk_of_methodOk (op : Op) (h : methodOk op) : callerOk op := by
  cases op with
  | set v x => cases v <;> first | exact h | trivial
  | get | lock | unlock | call | glCall | free | initWithCString | uninitialized | dispatch
  | deliver | inDelegate => exact h

theorem call_callerOk (c : Call) : Only callerOk c.body := by
  by_cases hc : c = .setIsStopEvent false
  · subst hc
    exact ⟨trivial, fun _ => trivial⟩
  · exact (Call.methodOk hc).mono callerOk_of_methodOk

theorem entry_callerOk {p : Core Unit} (hp : Only callerOk p) : Only callerOk (entry p) :=
  hp.bind fun _ => trivial

theorem ok_of_methodOk (op : Op) (h : methodOk op) : ok op := by
  cases op with
  | set v x => cases v <;> simp_all [methodOk, trackOk, controlOk, plainOk, readOk]
  | deliver status => exact absurd h (not_methodOk_deliver status)
  | get | lock | unlock | call | glCall | free | initWithCString | uninitialized | dispatch
  | inDelegate => trivial

theorem ok_of_callerOk {op : Op} (h : callerOk op) (hne : op ≠ .set .isStopEvent false) :
    ok op := by
  cases op with
  | set v x =>
    cases v
    case isStopEvent => cases x with
      | false => exact absurd rfl hne
      | true => rfl
    all_goals exact ok_of_methodOk _ h
  | get | lock | unlock | call | glCall | free | initWithCString | uninitialized | dispatch
  | inDelegate | deliver => exact ok_of_methodOk _ h

/-- A call of the delegate, before what is left of the pass. -/
theorem Hushed.delegate {m : Flags} {c : Call} {p : Core Bool} (hc : c ≠ .setIsStopEvent false)
    (hp : Hushed m p) : Hushed m (c.body >>= fun _ => p) := by
  have hbody : Safe rules c.body (fun _ m' => m' = m) m :=
    (Call.methodOk hc).safe rfl (fun _ op _ => ok_of_methodOk op)
      fun _ _ _ _ hm _ hm' => hm'.trans hm
  exact hbody.bind fun _ m' hm' => hm' ▸ hp

/-! ## Runs -/

/-- The flags that a program is silent for are still good for the object. -/
def Flags.Admit (m : Flags) (o : Object) : Prop :=
  (m.isManualStop = true → o.isManualStop = true) ∧ m.isLoaded = o.isLoaded

structure Silent (s : State) : Prop where
  callers : ∀ n, Only callerOk (s.session.program (.caller n))
  late : s.late = []
  returned : s.returned = true → s.session.obj.isStopEvent = true ∧
    ∃ m : Flags, m.Admit s.session.obj ∧ Hushed m (s.session.program .queue)

/-- What a silent operation makes of the flags. -/
theorem perform_ok {s t : Session.State} {thread : Thread} {a : Answer} {op : Op} {r : op.Res}
    (hok : ok op) (hp : s.perform thread a op = some (r, t)) :
    (s.obj.isStopEvent = true → t.obj.isStopEvent = true) ∧
      ∀ m : Flags, m.Admit s.obj → m.Admit t.obj := by
  cases op with
  | set v x =>
    obtain ⟨-, rfl⟩ := Prod.mk.inj (Option.some.inj hp)
    cases v <;> simp_all [State.perform, Object.set, Flags.Admit]
  | get | lock | unlock | call | glCall | free | initWithCString | uninitialized | dispatch
  | deliver | inDelegate =>
    rw [(State.perform_frame hp).obj (by rintro v x ⟨⟩)]
    exact ⟨id, fun _ => id⟩

/-- What the queue reads while `isStopEvent` is set is admitted. -/
theorem perform_admits {s t : Session.State} {a : Answer} {op : Op} {r : op.Res} {m : Flags}
    (hstop : s.obj.isStopEvent = true) (hm : m.Admit s.obj)
    (hp : s.perform .queue a op = some (r, t)) : admits m op r := by
  cases op with
  | get v =>
    obtain ⟨rfl, -⟩ := Prod.mk.inj (Option.some.inj hp)
    cases v with
    | isStopEvent => exact hstop
    | isManualStop => exact hm.1
    | isLoaded => exact hm.2.symm
    | mpv | isError | isInitTrack | subArray | audioArray | isStopDraw | url | isLog | optionDic
    | headerDic | avOptionDic | isMemoryCache | isProbeInfo | isAutoSoft | isHardDecoding
    | resumeTime => trivial
  | set | lock | unlock | call | glCall | free | initWithCString | uninitialized | dispatch
  | deliver | inDelegate => trivial

theorem Silent.goto {s : State} (h : Silent s) {t : Session.State} {record : State}
    (hlate : record.late = s.late) (hreturned : record.returned = s.returned)
    (hobj : t.obj = s.session.obj) (hqueue : t.program .queue = s.session.program .queue)
    (hcallers : ∀ n, Only callerOk (t.program (.caller n))) :
    Silent { record with session := t } where
  callers := hcallers
  late := hlate.trans h.late
  returned hret := by
    obtain ⟨hstop, m, hm, hp⟩ := h.returned (hreturned ▸ hret)
    exact ⟨hobj ▸ hstop, m, hobj ▸ hm, hqueue ▸ hp⟩

theorem Silent.begin {s : State} (h : Silent s) {t : Session.State} {record : State} {n : Nat}
    {p : Core Bool} (hlate : record.late = s.late) (hreturned : record.returned = s.returned)
    (hobj : t.obj = s.session.obj)
    (hprogram : t.program = Function.update s.session.program (.caller n) p)
    (hp : Only callerOk p) : Silent { record with session := t } := by
  apply h.goto hlate hreturned hobj
  · simp [hprogram]
  · intro i
    rw [hprogram, Function.update_apply]
    split
    · exact hp
    · exact h.callers i

/-- The queue begins another pass. -/
theorem Silent.pass {s : State} (h : Silent s) (queue : List Block) {p : Core Bool}
    (hp : ∀ m, Hushed m p) :
    Silent { s with session := { s.session with queue := queue }.goto .queue p } where
  callers n := by simpa [State.goto_program] using h.callers n
  late := h.late
  returned hret := by
    obtain ⟨hstop, m, hm, -⟩ := h.returned hret
    exact ⟨hstop, m, hm, by simpa using hp m⟩

theorem ne_inDelegate_of_callerOk {op : Op} (hok : callerOk op) : op ≠ .inDelegate := by
  rintro rfl
  exact not_methodOk_inDelegate hok

/-- What is recorded of a caller's operation. -/
theorem observe_of_callerOk {s : State} {n : Nat} {op : Op} (hok : callerOk op) :
    (s.observe (.caller n) op).late = s.late ∧
      ((s.observe (.caller n) op).returned = true →
        s.returned = true ∨ op = .unlock .shutdownLock ∧ s.stopping n = true) := by
  cases op with
  | deliver status => exact absurd hok (not_methodOk_deliver status)
  | unlock l => cases l <;> simp [State.observe]
  | get | set | lock | call | glCall | free | initWithCString | uninitialized | dispatch
  | inDelegate => exact ⟨rfl, .inl⟩

theorem Silent.runCaller {s : State} {t : Session.State} {n : Nat} {a : Answer} (h : Silent s)
    (hg : Quiet s (.run (.caller n) a))
    (hs : Session.step s.session (.run (.caller n) a) = some t) :
    Silent { s.record (.run (.caller n) a) with session := t } := by
  obtain ⟨op, k, r, m, hprogram, hperform, rfl⟩ := run_cases hs
  have hok := h.callers n
  rw [hprogram] at hok
  have hrecord : s.record (.run (.caller n) a) = s.observe (.caller n) op := by
    simp only [State.record, hprogram]
  obtain ⟨hlate, hreturned⟩ := observe_of_callerOk (s := s) (n := n) hok.1
  rw [hrecord, a.resume_of_ne (ne_inDelegate_of_callerOk hok.1)]
  refine ⟨fun i => ?_, hlate.trans h.late, fun hret => ?_⟩
  · rw [State.goto_program, State.perform_program hperform]
    split
    · exact hok.2 r
    · exact h.callers i
  have hqueue : (m.goto (.caller n) (k r)).program .queue = s.session.program .queue := by
    simp [State.goto_program, State.perform_program hperform]
  by_cases hbefore : s.returned = true
  · obtain ⟨hstop, flags, hflags, hhushed⟩ := h.returned hbefore
    have hne : op ≠ .set .isStopEvent false := by
      rintro rfl
      rw [hg.2 k hprogram] at hbefore
      cases hbefore
    obtain ⟨hstop', hflags'⟩ := perform_ok (ok_of_callerOk hok.1 hne) hperform
    exact ⟨hstop' hstop, flags, hflags' flags hflags, hqueue ▸ hhushed⟩
  · -- the call of `shutDown` returns here
    obtain ⟨rfl, hstopping⟩ := (hreturned hret).resolve_left hbefore
    obtain ⟨hstop, hhushed⟩ := hg.1 k hprogram hstopping
    obtain ⟨-, rfl⟩ := Prod.mk.inj (Option.some.inj hperform)
    exact ⟨hstop, _, ⟨id, rfl⟩, hqueue ▸ hhushed⟩

/-- Where the delegate is in control, what is left of the pass is still silent when it has
    chosen its next call. -/
theorem Hushed.resume {m : Flags} {a : Answer} {op : Op} {k : op.Res → Core Bool} {r : op.Res}
    (ha : a.delegate ≠ some (.setIsStopEvent false)) (hp : Hushed m (.act op k))
    (hr : admits m op r) : Hushed m (a.resume op k r) := by
  have hk : Hushed m (k r) := hp.2 r hr m rfl
  cases op with
  | inDelegate =>
    cases hc : a.delegate with
    | none => simpa only [Answer.resume, hc] using hk
    | some c =>
      simp only [Answer.resume, hc]
      exact .delegate (fun h => ha (h ▸ hc)) hp
  | get | set | lock | unlock | call | glCall | free | initWithCString | uninitialized | dispatch
  | deliver => exact hk

theorem Silent.runQueue {s : State} {t : Session.State} {a : Answer} (h : Silent s)
    (hg : Quiet s (.run .queue a)) (hs : Session.step s.session (.run .queue a) = some t) :
    Silent { s.record (.run .queue a) with session := t } := by
  obtain ⟨op, k, r, m, hprogram, hperform, rfl⟩ := run_cases hs
  have hrecord : s.record (.run .queue a) = s.observe .queue op := by
    simp only [State.record, hprogram]
  have hreturned : (s.observe .queue op).returned = s.returned := by cases op <;> rfl
  rw [hrecord]
  refine ⟨fun n => ?_, ?_, fun hret => ?_⟩
  · simpa [State.goto_program, State.perform_program hperform] using h.callers n
  · cases op with
    | deliver status =>
      cases hret : s.returned with
      | false => simp [State.observe, hret, h.late]
      | true =>
        obtain ⟨-, flags, -, hhushed⟩ := h.returned hret
        rw [hprogram] at hhushed
        exact hhushed.1.elim
    | get | set | lock | unlock | call | glCall | free | initWithCString | uninitialized
    | dispatch | inDelegate => exact h.late
  · rw [hreturned] at hret
    obtain ⟨hstop, flags, hflags, hhushed⟩ := h.returned hret
    rw [hprogram] at hhushed
    have hdelegate : a.delegate ≠ some (.setIsStopEvent false) := by
      intro hd
      rw [hg hd] at hret
      cases hret
    obtain ⟨hstop', hflags'⟩ := perform_ok hhushed.1 hperform
    refine ⟨hstop' hstop, flags, hflags' flags hflags, ?_⟩
    simpa using hhushed.resume hdelegate (perform_admits hstop hflags hperform)

theorem Silent.step {s s' : State} {l : Label} (h : Silent s) (hg : Quiet s l)
    (hs : step s l = some s') : Silent s' := by
  obtain ⟨t, ht, rfl⟩ := Option.map_eq_some_iff.mp hs
  cases l with
  | call n c =>
    obtain ⟨-, rfl⟩ := call_cases ht
    exact h.begin rfl rfl rfl rfl (entry_callerOk (call_callerOk c))
  | wakeup n =>
    obtain ⟨-, rfl⟩ := wakeup_cases ht
    exact h.begin rfl rfl rfl rfl (entry_callerOk (by simp [Core.wakeup, readEvents, callerOk,
      methodOk, trackOk, controlOk, readOk]))
  | take =>
    obtain ⟨-, b, bs, -, rfl⟩ := take_cases ht
    exact h.pass bs fun m => hushed_body m b
  | again =>
    obtain ⟨-, rfl⟩ := again_cases ht
    exact h.pass s.session.queue fun m => hushed_body m .readEvents
  | run t a =>
    cases t with
    | queue => exact h.runQueue hg ht
    | caller n => exact h.runCaller hg ht

/-- After a call of `shutDown` has returned, nothing more is reported and `isStopEvent`
    stays set. -/
theorem silent_of_quiet {s : State} (h : silence.Under Quiet s) (hret : s.returned = true) :
    s.late = [] ∧ s.session.obj.isStopEvent = true := by
  have hsilent : Silent s := by
    apply h.invariant
    · rintro s ⟨t, ⟨hd, o, rfl⟩, rfl⟩
      exact ⟨fun _ => trivial, rfl, nofun⟩
    · exact fun s s' l hi hg hs => hi.step hg hs
  exact ⟨hsilent.late, (hsilent.returned hret).1⟩

/-- A test that is enough for `Quiet`. -/
def quiets (s : State) : Label → Bool
  | .run (.caller n) _ =>
    match s.session.program (.caller n) with
    | .act (.unlock .shutdownLock) _ => s.session.obj.isStopEvent &&
        match s.session.program .queue with
        | .ret _ => true
        | .act _ _ => false
    | .act (.set .isStopEvent false) _ => false
    | _ => true
  | .run .queue a => a.delegate.isNone
  | _ => true

theorem quiet_of_quiets (s : State) (l : Label) (h : quiets s l = true) : Quiet s l := by
  cases l with
  | run t a =>
    cases t with
    | queue =>
      intro hd
      simp [quiets, hd] at h
    | caller n =>
      refine ⟨fun k hprogram _ => ?_, fun k hprogram => by simp [quiets, hprogram] at h⟩
      simp only [quiets, hprogram, Bool.and_eq_true] at h
      refine ⟨h.1, ?_⟩
      cases hqueue : s.session.program .queue with
      | ret b => trivial
      | act op k => simp [hqueue] at h
  | call | wakeup | take | again => trivial

/-- The thread 0 calls `shutDown` and runs it to its end. -/
def shutDownAlone : List Label := .call 0 .shutDown :: .replicate 12 (.run (.caller 0) {})

/-- The queue starts the pending pass and is given the event. -/
def passTo (e : Event) : List Label := .take :: .replicate 4 (.run .queue { event := e })

/-- `shutDown` returns while the queue is between two blocks. -/
theorem silent_between_blocks :
    ∃ s, silence.Under Quiet s ∧ s.returned = true ∧ s.late = [] ∧
      s.session.obj.isStopEvent = true := by
  obtain ⟨s, hs, hret⟩ := Machine.Under.execIf_any quiet_of_quiets
    (.init ⟨_, ⟨1, {}, rfl⟩, rfl⟩ : silence.Under Quiet { session := .afterInitView 1 {} })
    (shutDownAlone ++ [.wakeup 1, .take, .run .queue {}])
    (p := State.returned) (by decide +kernel)
  exact ⟨s, hs, hret, silent_of_quiet hs hret⟩

/-- `shutDown` returns while the queue handles the start of a file. -/
theorem not_silent_at_startFile :
    ¬ ∀ s, silence.Reachable s → s.returned = true →
      s.late = [] ∧ s.session.obj.isStopEvent = true := by
  intro h
  obtain ⟨s, hs, hcleared⟩ := Machine.Reachable.exec_any
    (.init ⟨_, ⟨1, {}, rfl⟩, rfl⟩ : silence.Reachable { session := .afterInitView 1 {} })
    (passTo ⟨.startFile, .none⟩ ++ shutDownAlone ++ .replicate 4 (.run .queue {}))
    (p := fun s => s.returned && !s.session.obj.isStopEvent) (by decide +kernel)
  simp only [Bool.and_eq_true, Bool.not_eq_true'] at hcleared
  have hstop := (h s hs hcleared.1).2
  rw [hcleared.2] at hstop
  cases hstop

end Silence
