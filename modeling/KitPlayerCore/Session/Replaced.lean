-- SUMMARY: Items that are opened one after the other, and the reports that the delegate receives for an item that was replaced.
import KitPlayerCore.Core.Status
import KitPlayerCore.Session.Order

/-!
# Replaced items

One thread opens items. `open` sets `isManualStop`, so that the events of the
items before are not reported, and the handler of `START_FILE` clears it. The
commands pass through the serial queue, and the events come back through it.
-/

namespace Replaced

open Core Mpv Transition

/-- A status that the delegate receives, with the item whose event is handled and
    the number of calls of `open` made so far. -/
structure Report where
  item : Nat
  opened : Nat
  status : EventStatus
  deriving DecidableEq, Repr

/-- The state while the handle is live. Only `open` dispatches `loadfile`, and the
    queue keeps the order, so the `n`-th `loadfile` is for the item of the `n`-th
    call, and that item is named `n`. The last two fields record what happened. -/
structure State where
  record : Record
  core : Playback Nat := {}
  /-- How many `loadfile` commands mpv has executed. -/
  loaded : Nat := 0
  /-- The `START_FILE`, `PLAYBACK_RESTART` and `END_FILE` events of the event queue,
      each with its item. -/
  ring : List (Nat × Event) := []
  /-- The blocks that are pending, the next one first. -/
  queue : List Block := []
  /-- What the caller has left of a call of `open`. -/
  caller : Core Unit := .ret ()
  /-- What the queue has left of a block. After `true` it makes another pass. -/
  worker : Core Bool := .ret false
  /-- The item of the last event of `ring` that was taken. -/
  handling : Nat := 0
  opened : Nat := 0
  reports : List Report := []

inductive Label where
  /-- The caller sets the URL of the next item. -/
  | setUrl (url : NSString)
  /-- The caller calls `open`. -/
  | open
  /-- The caller goes on. -/
  | caller
  /-- The wakeup callback dispatches a block. -/
  | wakeup
  /-- The queue takes the next block. -/
  | take
  /-- The queue goes on. `mpv_wait_event` may return an event `other` that is not in
      `State.ring`. -/
  | work (other : Option Event)
  /-- mpv's core takes a step. The event that it posts is lost when there is no
      room for it. `errorPlaying` and `shownFrames` are for `END_FILE`. -/
  | core (l : PlaybackLabel Nat) (errorPlaying : Int) (shownFrames lost : Bool)
  /-- Playback of the playing item has started, or started again after a seek. -/
  | restart (lost : Bool)

/-- The event is not one of those in `State.ring`, and there is one. -/
def isOther (e : Event) : Bool :=
  e.eventId ∉ [.none, .startFile, .playbackRestart, .endFile]

namespace State

/-- A command takes effect. -/
def command (s : State) (args : Session.Command) : State :=
  match Session.playbackLabel args with
  | .loadfile _ => { s with core := s.core.loadfile (s.loaded + 1), loaded := s.loaded + 1 }
  | .stop => { s with core := s.core.stop }
  | _ => s

/-- An operation of the code, other than `mpv_wait_event`. -/
def perform (s : State) : (op : Op) → op.Res × State
  | .dispatch b => ((), { s with queue := s.queue ++ [b] })
  | .call _ (.command args) => ((0 : Int), s.command args)
  | .deliver status => ((), { s with
      record := (Record.perform (.deliver status) s.record).2
      reports := s.reports ++ [⟨s.handling, s.opened, status⟩] })
  | op => ((Record.perform op s.record).1, { s with record := (Record.perform op s.record).2 })

/-- The core posts an event of the item `i`. -/
def post (s : State) (i : Nat) (e : Event) (lost : Bool) : State :=
  if lost then s else { s with ring := s.ring ++ [(i, e)] }

/-- The next step of the queue. -/
def work (s : State) (other : Option Event) : Option State :=
  match s.worker with
  | .ret true => some { s with worker := readEventsPass }
  | .ret false => none
  | .act (.call _ .waitEvent) k =>
    match other, s.ring with
    | some e, _ => if isOther e then some { s with worker := k e } else none
    | none, (i, e) :: ring => some { s with ring := ring, handling := i, worker := k e }
    | none, [] => some { s with worker := k ⟨.none, .none⟩ }
  | .act op k => some { (s.perform op).2 with worker := k (s.perform op).1 }

/-- A step of the core that is not a `loadfile`, with the event that it posts. -/
def runCore (s : State) (l : PlaybackLabel Nat) (errorPlaying : Int)
    (shownFrames lost : Bool) : Option State :=
  match l with
  | .loadfile _ => none
  | .startFile => do
    let p ← s.core.startFile
    let i ← p.playing
    some ({ s with core := p }.post i ⟨.startFile, .none⟩ lost)
  | .endFile next => do
    let i ← s.core.playing
    let p ← s.core.endFile next
    let (reason, error) := Playback.endFileEvent s.core.stopPlay errorPlaying shownFrames
    some ({ s with core := p }.post i ⟨.endFile, .endFile reason error⟩ lost)
  | .stop => some { s with core := s.core.stop }
  | .other => some s
  | .finish reason => (s.core.finish reason).map fun p => { s with core := p }

end State

def step (s : State) : Label → Option State
  | .setUrl url =>
    match s.caller with
    | .ret _ =>
      some { s with record := { s.record with obj := { s.record.obj with url := some url } } }
    | .act _ _ => none
  | .open =>
    match s.caller with
    | .ret _ => some { s with caller := Core.open, opened := s.opened + 1 }
    | .act _ _ => none
  | .caller =>
    match s.caller with
    | .ret _ => none
    | .act op k => some { (s.perform op).2 with caller := k (s.perform op).1 }
  | .wakeup => some { s with queue := s.queue ++ [.readEvents] }
  | .take =>
    match s.worker, s.queue with
    | .ret false, b :: queue => some { s with queue := queue, worker := b.body }
    | _, _ => none
  | .work other => s.work other
  | .core l errorPlaying shownFrames lost => s.runCore l errorPlaying shownFrames lost
  | .restart lost => s.core.playing.map fun i => s.post i ⟨.playbackRestart, .none⟩ lost

/-- A player that was initialised and given a URL, with nothing opened so far. -/
def State.afterInitView (h : Handle) (o : Object) (url : NSString) : State where
  record := { obj := { o with mpv := some h, url := some url } }
  queue := registered o

def opening : Machine State Label where
  init s := ∃ h o url, s = .afterInitView h o url
  step := step

/-! ## The code of `open` and of the blocks -/

/-- The rules of a call of `open`, in modes that say whether `isManualStop` was
    assigned. -/
@[simp] def openOk : Op → Prop
  | .get _ => True
  | .set .isManualStop x => x = true
  | .dispatch _ => True
  | _ => False

@[simp] def openAdmits : (op : Op) → op.Res → Prop
  | .get .mpv, r => r ≠ none
  | .get .url, r => r ≠ none
  | _, _ => True

@[simp] def openNext : Bool → Op → Bool → Prop
  | _, .set .isManualStop _, m => m = true
  | m, _, m' => m' = m

def openRules : Program.Rules Op Op.Res Bool :=
  ⟨fun _ => openOk, fun _ => openAdmits, fun m op _ => openNext m op⟩

@[simp] theorem openRules_ok (m : Bool) : openRules.ok m = openOk := rfl

@[simp] theorem openRules_admits (m : Bool) : openRules.admits m = openAdmits := rfl

@[simp] theorem openRules_next (m : Bool) (op : Op) (r : op.Res) :
    openRules.next m op r = openNext m op := rfl

/-- What is left of a call of `open` in which `isManualStop` was assigned if
    `assigned`, and otherwise will be. -/
def Opens (assigned : Bool) (p : Core Unit) : Prop :=
  p.Safe openRules (fun _ m => m = true) assigned

theorem open_opens : Opens false Core.open := by
  simp [Opens, Core.open]

/-- What the handler relies on: the value of `isLoaded`, and whether it found
    `isManualStop` clear. -/
structure Tested where
  loaded : Bool
  clear : Bool

namespace Tested

@[simp] def ok : Tested → Op → Prop
  | t, .deliver _ => t.clear = true
  | _, .get _ => True
  | _, .set .mpv _ => False
  | _, .set .url _ => False
  | _, .set .isManualStop x => x = false
  | _, .set _ _ => True
  | _, .call _ _ => True
  | _, .inDelegate => True
  | _, _ => False

@[simp] def admits : Tested → (op : Op) → op.Res → Prop
  | t, .get .isLoaded, r => r = t.loaded
  | _, _, _ => True

@[simp] def next : Tested → (op : Op) → op.Res → Tested → Prop
  | t, .get .isManualStop, r, t' => t' = { t with clear := !r }
  | t, .set .isLoaded x, _, t' => t' = { t with loaded := x }
  | t, .call _ .waitEvent, _, t' => t' = { t with clear := false }
  | t, _, _, t' => t' = t

def rules : Program.Rules Op Op.Res Tested := ⟨ok, admits, next⟩

@[simp] theorem rules_ok : rules.ok = ok := rfl

@[simp] theorem rules_admits : rules.admits = admits := rfl

@[simp] theorem rules_next : rules.next = next := rfl

/-- What is left of a block reports only after it has found `isManualStop` clear. -/
def Asks (t : Tested) (p : Core Bool) : Prop := p.Safe rules (fun _ _ => True) t

end Tested

/-- What is left of the block reports nothing without a test of `isManualStop`,
    where `isLoaded` has the value `loaded`. -/
def Silent (loaded : Bool) (p : Core Bool) : Prop := Tested.Asks ⟨loaded, false⟩ p

theorem handleEvent_asks (t : Tested) (event : Event) :
    (handleEvent event).Safe Tested.rules (fun _ _ => True) t := by
  simp only [handleEvent, runCoreEvent]
  split <;> simp

theorem readEventsPass_silent (loaded : Bool) : Silent loaded readEventsPass := by
  have hevent (event : Event) : (handleEvent event).Safe Tested.rules
      (fun _ => (Program.ret true : Core Bool).Safe Tested.rules fun _ _ => True)
      ⟨loaded, false⟩ := handleEvent_asks _ event
  simp only [Silent, Tested.Asks, readEventsPass]
  simp
  exact fun _ _ _ event _ => hevent event

theorem Block.silent (loaded : Bool) (b : Block) : Silent loaded b.body := by
  cases b with
  | readEvents => exact readEventsPass_silent loaded
  | loadfile | subAdd str | audioAdd str =>
    simp [Silent, Tested.Asks, Block.body, runCommand]

/-! ## Runs -/

namespace State

/-- A call of `open` is under way and has yet to assign `isManualStop`. -/
def Entering (s : State) : Prop := Opens false s.caller

/-- The items that are somewhere on the way from the queue to mpv and back, with
    the number of `loadfile` commands. -/
def items (s : State) : List Nat :=
  s.handling :: (s.ring.map Prod.fst ++ (s.core.playing.toList ++
    (s.core.current.toList ++ [s.loaded])))

end State

/-- `open` is not called between a handler's test of `isManualStop` and its report,
    a handler that is to report does not find `isManualStop` clear while `open` has
    yet to assign it, and the handler of `START_FILE` does not clear `isManualStop`
    after a call of `open` for a later item has assigned it. -/
def Timely (s : State) : Label → Prop
  | .open => Silent s.record.obj.isLoaded s.worker
  | .work _ =>
    (∀ k, s.worker = .act (.get .isManualStop) k → s.record.obj.isManualStop = false →
      s.Entering → Silent s.record.obj.isLoaded (k false)) ∧
    (∀ k, s.worker = .act (.set .isManualStop false) k → s.Entering ∨ s.opened ≤ s.handling)
  | _ => True

/-- A clear `isManualStop` and a handler that is to report stand for the last item. -/
structure Current (s : State) : Prop where
  mpv : s.record.obj.mpv ≠ none
  url : s.record.obj.url ≠ none
  caller : s.caller = .ret () ∨ Opens false s.caller ∨ Opens true s.caller
  items : s.items.Pairwise (· ≤ ·)
  clear : s.record.obj.isManualStop = false → s.Entering ∨ s.opened ≤ s.handling
  worker : ∃ clear, Tested.Asks ⟨s.record.obj.isLoaded, clear⟩ s.worker ∧
    (clear = true → s.opened ≤ s.handling)
  reports : ∀ r ∈ s.reports, r.opened ≤ r.item

theorem Current.afterInitView (h : Handle) (o : Object) (url : NSString) :
    Current (.afterInitView h o url) where
  mpv := nofun
  url := nofun
  caller := .inl rfl
  items := by simp [State.items, State.afterInitView]
  clear _ := .inr le_rfl
  worker := ⟨true, trivial, fun _ => le_rfl⟩
  reports := nofun

/-! ## Items -/

/-- The items keep their order while the queue and mpv pass them on. -/
theorem items_command {s : State} (args : Session.Command) (h : s.items.Pairwise (· ≤ ·)) :
    (s.command args).items.Pairwise (· ≤ ·) := by
  unfold State.command
  split
  · simp [State.items, Playback.loadfile, List.pairwise_append] at h ⊢
    grind
  · simp [State.items, Playback.stop, List.pairwise_append] at h ⊢
    grind
  · exact h

theorem command_eq (s : State) (args : Session.Command) :
    ∃ core loaded, s.command args = { s with core := core, loaded := loaded } := by
  unfold State.command
  split <;> exact ⟨_, _, rfl⟩

theorem items_post {s : State} {i : Nat} {e : Event} {lost : Bool}
    (h : ({ s with ring := s.ring ++ [(i, e)] } : State).items.Pairwise (· ≤ ·)) :
    (s.post i e lost).items.Pairwise (· ≤ ·) := by
  unfold State.post
  split
  · simp [State.items, List.pairwise_append] at h ⊢
    grind
  · exact h

theorem items_restart {s : State} {i : Nat} (e : Event) (lost : Bool)
    (h : s.items.Pairwise (· ≤ ·)) (hi : s.core.playing = some i) :
    (s.post i e lost).items.Pairwise (· ≤ ·) := by
  apply items_post
  simp [State.items, List.pairwise_append, hi] at h ⊢
  grind

theorem items_runCore {s s' : State} {l : PlaybackLabel Nat} {errorPlaying : Int}
    {shownFrames lost : Bool} (h : s.items.Pairwise (· ≤ ·))
    (hs : s.runCore l errorPlaying shownFrames lost = some s') : s'.items.Pairwise (· ≤ ·) := by
  cases l with
  | loadfile e => cases hs
  | startFile =>
    simp [State.runCore, Option.bind_eq_some_iff] at hs
    obtain ⟨p, hp, i, hi, rfl⟩ := hs
    obtain ⟨hnone, hcur, -, rfl⟩ := Playback.startFile_cases hp
    apply items_post
    simp [State.items, List.pairwise_append, hnone] at h hi ⊢
    grind
  | endFile next =>
    simp [State.runCore, Option.bind_eq_some_iff] at hs
    obtain ⟨i, hi, p, hp, rfl⟩ := hs
    obtain ⟨-, -, hnone, hcur, -⟩ := Playback.endFile_cases hp
    apply items_post
    simp [State.items, List.pairwise_append, hnone, hi] at h ⊢
    grind
  | stop =>
    cases hs
    simp [State.items, Playback.stop, List.pairwise_append] at h ⊢
    grind
  | other =>
    cases hs
    exact h
  | finish reason =>
    simp [State.runCore] at hs
    obtain ⟨p, hp, rfl⟩ := hs
    obtain ⟨-, -, -, rfl⟩ := Playback.finish_cases hp
    exact h

/-! ## Steps -/

theorem Current.setUrl {s s' : State} {url : NSString} (h : Current s)
    (hs : step s (.setUrl url) = some s') : Current s' := by
  simp only [step] at hs
  split at hs
  · cases hs
    exact ⟨h.mpv, nofun, h.caller, h.items, h.clear, h.worker, h.reports⟩
  · cases hs

theorem Current.open {s s' : State} (h : Current s) (hg : Timely s .open)
    (hs : step s .open = some s') : Current s' := by
  simp only [step] at hs
  split at hs
  · cases hs
    exact ⟨h.mpv, h.url, .inr (.inl open_opens), h.items, fun _ => .inl open_opens,
      ⟨false, hg, nofun⟩, h.reports⟩
  · cases hs

/-- `open` goes on in a way that leaves `isManualStop` as it is. -/
theorem Current.opens {s : State} (h : Current s) {queue : List Block} {p : Core Unit}
    (hp : ∀ assigned, Opens assigned s.caller → Opens assigned p) (hne : s.caller ≠ .ret ()) :
    Current { s with queue := queue, caller := p } :=
  ⟨h.mpv, h.url, .inr ((h.caller.resolve_left hne).imp (hp false) (hp true)), h.items,
    fun hclear => (h.clear hclear).imp_left (hp false), h.worker, h.reports⟩

theorem Current.runCaller {s s' : State} (h : Current s) (hs : step s .caller = some s') :
    Current s' := by
  simp only [step] at hs
  split at hs
  · cases hs
  · rename_i op k hc
    cases hs
    have hne : s.caller ≠ .ret () := by
      rw [hc]
      nofun
    have hopens (assigned : Bool) (ho : Opens assigned s.caller) :
        openOk op ∧ ∀ r, openAdmits op r → ∀ m', openNext assigned op m' → Opens m' (k r) := by
      rw [hc] at ho
      exact ho
    obtain ⟨assigned, ho⟩ : ∃ assigned, Opens assigned s.caller :=
      (h.caller.resolve_left hne).elim (⟨false, ·⟩) (⟨true, ·⟩)
    have hok := (hopens assigned ho).1
    cases op with
    | get v =>
      have hadmits : openAdmits (.get v) (s.record.obj.get v) := by
        cases v with
        | mpv => exact h.mpv
        | url => exact h.url
        | _ => trivial
      refine h.opens (fun a ha => (hopens a ha).2 _ hadmits a ?_) hne
      cases v <;> rfl
    | set v x =>
      cases v with
      | isManualStop =>
        obtain rfl : x = true := hok
        exact ⟨h.mpv, h.url, .inr (.inr ((hopens assigned ho).2 () trivial true rfl)), h.items,
          nofun, h.worker, h.reports⟩
      | _ => exact hok.elim
    | dispatch b => exact h.opens (fun a ha => (hopens a ha).2 () trivial a rfl) hne
    | _ => exact hok.elim

/-- The queue starts something that reports nothing without a test. -/
theorem Current.silent {s : State} (h : Current s) {queue : List Block} {p : Core Bool}
    (hp : Silent s.record.obj.isLoaded p) : Current { s with queue := queue, worker := p } :=
  ⟨h.mpv, h.url, h.caller, h.items, h.clear, ⟨false, hp, nofun⟩, h.reports⟩

theorem Current.take {s s' : State} (h : Current s) (hs : step s .take = some s') :
    Current s' := by
  simp only [step] at hs
  split at hs
  · cases hs
    exact h.silent (Block.silent _ _)
  · cases hs

/-- A block goes on in a way that leaves `isManualStop` as it is. -/
theorem Current.goOn {s : State} (h : Current s) {record : Record} {clear : Bool} {p : Core Bool}
    (hmpv : record.obj.mpv ≠ none) (hurl : record.obj.url ≠ none)
    (hkeep : record.obj.isManualStop = s.record.obj.isManualStop)
    (hp : Tested.Asks ⟨record.obj.isLoaded, clear⟩ p)
    (hlast : clear = true → s.opened ≤ s.handling) :
    Current { s with record := record, worker := p } :=
  ⟨hmpv, hurl, h.caller, h.items, fun hclear => h.clear (hkeep.symm.trans hclear),
    ⟨clear, hp, hlast⟩, h.reports⟩

/-- An operation of a block, other than `mpv_wait_event`. -/
theorem Current.perform {s : State} {op : Op} {k : op.Res → Core Bool} {other : Option Event}
    (h : Current s) (hg : Timely s (.work other)) (hw : s.worker = .act op k)
    (hwait : ∀ hd, op ≠ .call hd .waitEvent) :
    Current { (s.perform op).2 with worker := k (s.perform op).1 } := by
  obtain ⟨clear, hasks, hlast⟩ := h.worker
  rw [hw] at hasks
  obtain ⟨hok, hk⟩ := hasks
  have hgo {r : op.Res} {t : Tested} (hadmits : Tested.admits ⟨s.record.obj.isLoaded, clear⟩ op r)
      (hnext : Tested.next ⟨s.record.obj.isLoaded, clear⟩ op r t) : Tested.Asks t (k r) :=
    hk r hadmits t hnext
  cases op with
  | get v =>
    cases v with
    | isManualStop =>
      -- a handler that finds it clear may report from here on
      obtain ⟨clear', hasks', hlast'⟩ : ∃ clear',
          Tested.Asks ⟨s.record.obj.isLoaded, clear'⟩ (k s.record.obj.isManualStop) ∧
            (clear' = true → s.opened ≤ s.handling) := by
        have htested := hgo (r := s.record.obj.isManualStop) trivial rfl
        cases hstop : s.record.obj.isManualStop with
        | true =>
          rw [hstop] at htested
          exact ⟨false, htested, nofun⟩
        | false =>
          rw [hstop] at htested
          rcases h.clear hstop with henter | hle
          · exact ⟨false, hg.1 k hw hstop henter, nofun⟩
          · exact ⟨true, htested, fun _ => hle⟩
      exact h.goOn h.mpv h.url rfl hasks' hlast'
    | isLoaded => exact h.goOn h.mpv h.url rfl (hgo rfl rfl) hlast
    | _ => exact h.goOn h.mpv h.url rfl (hgo trivial rfl) hlast
  | set v x =>
    cases v with
    | mpv | url => exact hok.elim
    | isManualStop =>
      obtain rfl : x = false := hok
      exact ⟨h.mpv, h.url, h.caller, h.items, fun _ => hg.2 k hw,
        ⟨clear, hgo (r := ()) trivial rfl, hlast⟩, h.reports⟩
    | isLoaded =>
      refine h.goOn ?_ ?_ ?_ (hgo (r := ()) trivial rfl) hlast
      · exact h.mpv
      · exact h.url
      · rfl
    | _ =>
      refine h.goOn ?_ ?_ ?_ (hgo (r := ()) trivial rfl) hlast
      · exact h.mpv
      · exact h.url
      · rfl
  | call hd f =>
    cases f with
    | command args =>
      obtain ⟨core, loaded, heq⟩ := command_eq s args
      have hitems := items_command args h.items
      simp only [State.perform, heq] at hitems ⊢
      exact ⟨h.mpv, h.url, h.caller, hitems, h.clear, ⟨clear, hgo trivial rfl, hlast⟩, h.reports⟩
    | waitEvent => exact absurd rfl (hwait hd)
    | _ => exact h.goOn h.mpv h.url rfl (hgo trivial rfl) hlast
  | deliver status =>
    refine ⟨h.mpv, h.url, h.caller, h.items, h.clear, ⟨clear, hgo (r := ()) trivial rfl, hlast⟩, ?_⟩
    intro r hr
    rcases List.mem_append.mp hr with hr | hr
    · exact h.reports r hr
    · obtain rfl := List.mem_singleton.mp hr
      exact hlast hok
  | inDelegate => exact h.goOn h.mpv h.url rfl (hgo trivial rfl) hlast
  | _ => exact hok.elim

theorem Current.runWork {s s' : State} {other : Option Event} (h : Current s)
    (hg : Timely s (.work other)) (hs : s.work other = some s') : Current s' := by
  unfold State.work at hs
  split at hs
  · cases hs
    exact h.silent (readEventsPass_silent _)
  · cases hs
  · rename_i hd k hw
    obtain ⟨clear, hasks, hlast⟩ := h.worker
    rw [hw] at hasks
    have hsilent (e : Event) : Silent s.record.obj.isLoaded (k e) := hasks.2 e trivial _ rfl
    split at hs
    · simp only [Option.ite_none_right_eq_some, Option.some.injEq] at hs
      obtain ⟨-, rfl⟩ := hs
      exact h.silent (hsilent _)
    · rename_i i e ring hring
      cases hs
      have hitems := h.items
      simp only [State.items, hring, List.map_cons, List.cons_append, List.pairwise_cons]
        at hitems
      -- the items after the one that is handled now are no earlier
      have hle : s.handling ≤ i := hitems.1 i List.mem_cons_self
      refine ⟨h.mpv, h.url, h.caller, List.pairwise_cons.mpr hitems.2, ?_,
        ⟨false, hsilent e, nofun⟩, h.reports⟩
      exact fun hclear => (h.clear hclear).imp_right fun hlast => hlast.trans hle
    · cases hs
      exact h.silent (hsilent _)
  · rename_i op k hwait hw
    cases hs
    refine h.perform hg hw ?_
    rintro hd rfl
    exact hwait hd k rfl .rfl

theorem post_eq (s : State) (i : Nat) (e : Event) (lost : Bool) :
    ∃ core ring, s.post i e lost = { s with core := core, ring := ring } := by
  unfold State.post
  split <;> exact ⟨_, _, rfl⟩

theorem runCore_eq {s s' : State} {l : PlaybackLabel Nat} {errorPlaying : Int}
    {shownFrames lost : Bool} (hs : s.runCore l errorPlaying shownFrames lost = some s') :
    ∃ core ring, s' = { s with core := core, ring := ring } := by
  cases l with
  | loadfile e => cases hs
  | startFile =>
    simp [State.runCore, Option.bind_eq_some_iff] at hs
    obtain ⟨p, -, i, -, rfl⟩ := hs
    exact post_eq { s with core := p } i _ lost
  | endFile next =>
    simp [State.runCore, Option.bind_eq_some_iff] at hs
    obtain ⟨i, -, p, -, rfl⟩ := hs
    exact post_eq { s with core := p } i _ lost
  | stop =>
    cases hs
    exact ⟨_, _, rfl⟩
  | other =>
    cases hs
    exact ⟨_, _, rfl⟩
  | finish reason =>
    simp [State.runCore] at hs
    obtain ⟨p, -, rfl⟩ := hs
    exact ⟨_, _, rfl⟩

theorem Current.step {s s' : State} {l : Label} (h : Current s) (hg : Timely s l)
    (hs : step s l = some s') : Current s' := by
  cases l with
  | setUrl url => exact h.setUrl hs
  | «open» => exact h.open hg hs
  | caller => exact h.runCaller hs
  | wakeup =>
    cases hs
    exact ⟨h.mpv, h.url, h.caller, h.items, h.clear, h.worker, h.reports⟩
  | take => exact h.take hs
  | work other => exact h.runWork hg hs
  | core l errorPlaying shownFrames lost =>
    have hitems := items_runCore h.items hs
    obtain ⟨core, ring, rfl⟩ := runCore_eq hs
    exact ⟨h.mpv, h.url, h.caller, hitems, h.clear, h.worker, h.reports⟩
  | restart lost =>
    simp only [Replaced.step, Option.map_eq_some_iff] at hs
    obtain ⟨i, hi, rfl⟩ := hs
    have hitems := items_restart ⟨.playbackRestart, .none⟩ lost h.items hi
    obtain ⟨core, ring, heq⟩ := post_eq s i ⟨.playbackRestart, .none⟩ lost
    rw [heq] at hitems ⊢
    exact ⟨h.mpv, h.url, h.caller, hitems, h.clear, h.worker, h.reports⟩

theorem current_of_timely {s : State} (h : opening.Under Timely s) : Current s := by
  refine h.invariant ?_ fun s s' l hs hg hstep => hs.step hg hstep
  rintro s ⟨hd, o, url, rfl⟩
  exact .afterInitView hd o url

/-- In every run whose steps are timely, a status that the delegate receives is
    about an item for which `open` was called last. -/
theorem opened_le_item_of_timely {s : State} (h : opening.Under Timely s) :
    ∀ r ∈ s.reports, r.opened ≤ r.item :=
  (current_of_timely h).reports

/-- A test that is enough for `Timely`. -/
def timely (s : State) : Label → Bool
  | .open => s.worker.done
  | .work _ => s.caller.done && match s.worker with
    | .act (.set .isManualStop false) _ => s.opened ≤ s.handling
    | _ => true
  | _ => true

theorem timely_of_test (s : State) (l : Label) (h : timely s l = true) : Timely s l := by
  cases l with
  | «open» =>
    simp only [timely] at h
    unfold Timely
    cases hw : s.worker with
    | ret b => trivial
    | act op k =>
      rw [hw] at h
      cases h
  | work other =>
    simp only [timely, Bool.and_eq_true] at h
    refine ⟨fun _ _ _ henter => ?_, fun k hk => .inr ?_⟩
    · rw [State.Entering] at henter
      cases hc : s.caller with
      | ret u =>
        rw [hc] at henter
        cases henter
      | act op k =>
        rw [hc] at h
        cases h.1
    · simpa [hk] using h.2
  | setUrl | caller | wakeup | take | core | restart => trivial

/-- The caller calls `open` and runs it to its end. -/
def openCall : List Label := .open :: .replicate 4 .caller

/-- The queue takes a block and goes on for `n` operations. -/
def takeBlock (n : Nat) : List Label := .take :: .replicate n (.work none)

/-- An item is opened and reported as ready. It is replaced by another one, its `END_FILE` is not
    reported, and the other one is reported as ready. -/
theorem opened_le_item_after_open :
    ∃ s, opening.Under Timely s ∧ s.opened = 2 ∧
      s.reports = [⟨1, 1, .readyToPlay⟩, ⟨2, 2, .readyToPlay⟩] ∧
      ∀ r ∈ s.reports, r.opened ≤ r.item := by
  obtain ⟨s, hs, hend⟩ := Machine.Under.execIf_any timely_of_test
    (.init ⟨1, {}, "a", rfl⟩ : opening.Under Timely (.afterInitView 1 {} "a"))
    (openCall ++ takeBlock 4 ++ takeBlock 3 ++ [.core .startFile 0 false false, .wakeup] ++
      takeBlock 12 ++ [.restart false] ++ .replicate 14 (.work none) ++ openCall ++ takeBlock 3 ++
      [.core (.endFile false) 0 true false, .wakeup] ++ takeBlock 10 ++
      [.core .startFile 0 false false, .restart false, .wakeup] ++ takeBlock 26)
    (p := fun s => s.opened = 2 ∧ s.reports = [⟨1, 1, .readyToPlay⟩, ⟨2, 2, .readyToPlay⟩])
    (by decide +kernel)
  obtain ⟨hopened, hreports⟩ := of_decide_eq_true hend
  exact ⟨s, hs, hopened, hreports, opened_le_item_of_timely hs⟩

/-- Two items are opened before the first starts. Its `START_FILE` clears
    `isManualStop`, and its `END_FILE` is reported when both calls have long returned. -/
theorem replaced_item_reported :
    ¬ ∀ s, opening.Reachable s → ∀ r ∈ s.reports, r.opened ≤ r.item := by
  intro h
  obtain ⟨s, hs, hreports⟩ := Machine.Reachable.exec_any
    (.init ⟨1, {}, "a", rfl⟩ : opening.Reachable (.afterInitView 1 {} "a"))
    (openCall ++ openCall ++ takeBlock 4 ++ takeBlock 3 ++
      [.core .startFile 0 false false, .wakeup] ++ takeBlock 3 ++
      [.core (.endFile false) 0 false false] ++ takeBlock 20)
    (p := fun s => ⟨1, 2, .failed⟩ ∈ s.reports) (by decide +kernel)
  exact absurd (h s hs ⟨1, 2, .failed⟩ (of_decide_eq_true hreports)) (by decide)

end Replaced
