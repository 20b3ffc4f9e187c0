-- SUMMARY: What the public methods may do to the object and outside of it, whatever they are answered.
import KitPlayerCore.Core.Composition

/-!
# Effects

Only the handler of events reports to the delegate and starts an item anew. The public
methods read few variables, and only those that count tracks touch the track lists.
-/

namespace Core

open Mpv Transition Program

/-- What the methods do that read a property. -/
def readOk : Op → Prop
  | .get v => v ∈ [Ivar.mpv, .isLoaded, .isStopEvent]
  | .call _ (.getProperty _ _) => True
  | .call _ _ | .set _ _ | .glCall _ | .dispatch _ | .deliver _ | .inDelegate => False
  | _ => True

/-- What the methods do that count tracks. -/
def trackOk : Op → Prop
  | .get .isInitTrack | .get .subArray | .get .audioArray => True
  | .set .isInitTrack x => x = true
  | .set .subArray _ | .set .audioArray _ => True
  | op => readOk op

/-- What the methods do that set a property or an option, or give a command. -/
def plainOk : Op → Prop
  | .call _ _ => True
  | .set .isLog _ | .set .optionDic _ | .set .headerDic _ | .set .avOptionDic _
  | .set .isMemoryCache _ | .set .isProbeInfo _ | .set .isAutoSoft _ | .set .isHardDecoding _
  | .set .resumeTime _ => True
  | op => readOk op

/-- As `plainOk`, where mpv is only told to set something, and no lock is taken. -/
def assignOk : Op → Prop
  | .call _ (.setOptionString _ _) | .call _ (.setProperty _ _) | .call _ (.command _) => True
  | .call _ _ | .lock _ | .unlock _ | .free _ | .initWithCString _ | .uninitialized => False
  | op => plainOk op

/-- What the methods do that control playback. -/
def controlOk : Op → Prop
  | .get .url => True
  | .set .isStopEvent x | .set .isStopDraw x | .set .isManualStop x => x = true
  | .set .mpv x => x = none
  | .set .url _ | .glCall _ | .dispatch _ => True
  | op => plainOk op

attribute [local simp] readOk plainOk assignOk controlOk

/-- What the methods do. -/
def methodOk (op : Op) : Prop := trackOk op ∨ controlOk op

theorem readOk_of_primitiveOk (op : Op) (h : primitiveOk op) : readOk op := by
  cases op with
  | get v => exact h
  | call hd f => cases f <;> exact h
  | lock | unlock | free | initWithCString | uninitialized => trivial
  | set | glCall | dispatch | deliver | inDelegate => exact h.elim

theorem trackOk_of_readOk (op : Op) (h : readOk op) : trackOk op := by
  cases op with
  | get v => cases v <;> first | exact h | trivial
  | call hd f => cases f <;> exact h
  | set | glCall | dispatch | deliver | inDelegate => exact h.elim
  | lock | unlock | free | initWithCString | uninitialized => trivial

theorem trackOk_of_cacheOk (op : Op) (h : cacheOk op) : trackOk op := by
  cases op with
  | get v => cases v <;> first | exact h | exact h.elim
  | set v x => cases v <;> exact h
  | call | glCall | dispatch | deliver | inDelegate => exact h.elim
  | lock | unlock | free | initWithCString | uninitialized => trivial

theorem plainOk_of_assignOk (op : Op) (h : assignOk op) : plainOk op := by
  cases op with
  | call hd f => trivial
  | lock | unlock | free | initWithCString | uninitialized => exact h.elim
  | get | set | glCall | dispatch | deliver | inDelegate => exact h

theorem controlOk_of_plainOk (op : Op) (h : plainOk op) : controlOk op := by
  cases op with
  | get v => cases v <;> first | exact h | trivial
  | set v x => cases v <;> first | exact h | exact h.elim
  | deliver | inDelegate => exact h.elim
  | call | lock | unlock | glCall | free | initWithCString | uninitialized | dispatch => trivial

/-- No method reports to the delegate. -/
theorem not_methodOk_deliver (status : EventStatus) : ¬ methodOk (.deliver status) := by
  rintro (h | h) <;> exact h

theorem not_methodOk_inDelegate : ¬ methodOk .inDelegate := by
  rintro (h | h) <;> exact h

/-! ## The methods -/

theorem setOptions_assignOk (dic : NSDictionary) (keys : List NSString) :
    Only assignOk (setOptions dic keys) := by
  induction keys with
  | nil => trivial
  | cons key keys ih => simpa [setOptions, assignOk, plainOk, readOk] using ih

theorem setOptionDic_assignOk (dic : Option NSDictionary) : Only assignOk (setOptionDic dic) := by
  cases dic with
  | none => simp [setOptionDic, assignOk, plainOk]
  | some dic =>
    simpa [setOptionDic, assignOk, plainOk, readOk] using setOptions_assignOk dic dic.allKeys

theorem setHeaderDic_assignOk (dic : Option NSDictionary) : Only assignOk (setHeaderDic dic) := by
  cases dic with
  | none => simp [setHeaderDic, assignOk, plainOk]
  | some dic =>
    cases hua : dic.valueForKey "User-Agent" <;>
      simp [setHeaderDic, hua, assignOk, plainOk, readOk]

theorem setParameter_assignOk (key : NSString) (value : Value) :
    Only assignOk (setParameter key value) := by
  simp [setParameter, assignOk, plainOk, readOk]

theorem Setter.assignOk (s : Setter) : Only assignOk s.body := by
  refine s.assigned.only (fun v x hv => ?_) setParameter_assignOk
  cases v <;> trivial

/-! ## The getters -/

theorem Primitive.readOk (g : Primitive) : Only readOk g.body :=
  g.only.mono readOk_of_primitiveOk

theorem Getter.readOk {g : Getter} (hg : g.Plain) : Only readOk g.read := by
  have hcomposed : Composed (fun _ => False) g.read := Getter.Plain.composed hg
  exact hcomposed.only (fun _ => False.elim) Primitive.readOk

theorem Composed.trackOk {α : Type} {p : Core α} (h : Composed cacheOk p) : Only trackOk p :=
  h.only trackOk_of_cacheOk fun g => g.readOk.mono trackOk_of_readOk

theorem initTrackList_trackOk : Only trackOk initTrackList := initTrackList_composed.trackOk

theorem Getter.trackOk (g : Getter) : Only trackOk g.read := g.composed.trackOk

theorem Getter.body_trackOk (g : Getter) : Only Core.trackOk g.body := g.body_composed.trackOk

/-! ## The calls -/

/-- The calls that set properties and options, or give a command at once. -/
def Call.Plain : Call → Prop
  | .open | .addSubtitle _ | .addAudio _ | .shutDown | .setUrl _ | .setIsStopEvent _
  | .getter _ => False
  | _ => True

theorem Call.assignOk {c : Call} (hc : c.Plain) : Only assignOk c.body := by
  cases c with
  | «open» | addSubtitle | addAudio | shutDown | setUrl | setIsStopEvent | getter => exact hc.elim
  | stop => simp [Call.body, Core.stop, Core.assignOk, Core.plainOk, readOk]
  | play => simp [Call.body, Core.play, setPause, Core.assignOk, Core.plainOk, readOk]
  | pause => simp [Call.body, Core.pause, setPause, Core.assignOk, Core.plainOk, readOk]
  | seekTime time isExa => simp [Call.body, Core.seekTime, Core.assignOk, Core.plainOk, readOk]
  | setIsLog b logFile =>
    cases b <;> simp [Call.body, Core.setIsLog, Core.assignOk, Core.plainOk, readOk]
  | setOptionDic dic => exact setOptionDic_assignOk dic
  | setHeaderDic dic => exact setHeaderDic_assignOk dic
  | setAvOptionDic dic =>
    simp [Call.body, Core.setAvOptionDic, Core.assignOk, Core.plainOk, readOk]
  | setter s => exact s.assignOk

theorem Call.plainOk {c : Call} (hc : c.Plain) : Only plainOk c.body :=
  (Call.assignOk hc).mono plainOk_of_assignOk

/-- The calls that read nothing from mpv. -/
def Call.Control : Call → Prop
  | .getter _ => False
  | c => c ≠ .setIsStopEvent false

theorem Call.controlOk {c : Call} (hc : c.Control) : Only controlOk c.body := by
  have hplain (h : c.Plain) : Only Core.controlOk c.body :=
    (Call.plainOk h).mono controlOk_of_plainOk
  cases c with
  | «open» => simp [Call.body, Core.open, Core.controlOk, Core.plainOk, readOk]
  | addSubtitle str => simp [Call.body, Core.addSubtitle, Core.controlOk, Core.plainOk, readOk]
  | addAudio str => simp [Call.body, Core.addAudio, Core.controlOk, Core.plainOk, readOk]
  | shutDown => simp [Call.body, Core.shutDown, Core.controlOk, Core.plainOk, readOk]
  | setUrl url => simp [Call.body, Core.setUrl, Core.controlOk]
  | setIsStopEvent b => cases b with
    | false => exact absurd rfl hc
    | true => simp [Call.body, Core.setIsStopEvent, Core.controlOk]
  | getter => exact hc.elim
  | stop | play | pause | seekTime | setIsLog | setOptionDic | setHeaderDic | setAvOptionDic
  | setter => exact hplain trivial

/-- What a call does, unless it assigns `false` to `isStopEvent`. -/
theorem Call.methodOk {c : Call} (hc : c ≠ .setIsStopEvent false) : Only methodOk c.body := by
  have hcontrol (h : c.Control) : Only Core.methodOk c.body :=
    (Call.controlOk h).mono fun _ => .inr
  cases c with
  | getter g => exact g.body_trackOk.mono fun _ => .inl
  | «open» | addSubtitle | addAudio | shutDown | setUrl | setIsStopEvent | stop | play | pause
  | seekTime | setIsLog | setOptionDic | setHeaderDic | setAvOptionDic | setter =>
    exact hcontrol hc

/-! ## What surrounds the six getters -/

/-- What the methods do besides calling the six getters, `shutDown` apart: they take no lock,
    leave GL alone, and neither wait for events nor end the life of the handle. -/
def quietOk : Op → Prop
  | .set .mpv _ => False
  | .call _ .waitEvent | .call _ .clearWakeupCallback | .call _ .detachDestroy => False
  | .lock _ | .unlock _ | .glCall _ | .deliver _ | .inDelegate => False
  | _ => True

/-- What the serial queue does besides. -/
def queueOk : Op → Prop
  | .call _ .waitEvent | .deliver _ | .inDelegate => True
  | op => quietOk op

attribute [local simp] quietOk queueOk

theorem quietOk_of_cacheOk (op : Op) (h : cacheOk op) : quietOk op := by
  cases op with
  | get v => trivial
  | set v x => cases v <;> first | exact h.elim | trivial
  | call | lock | unlock | glCall | free | initWithCString | uninitialized | dispatch | deliver
  | inDelegate => exact h.elim

theorem quietOk_of_assignOk (op : Op) (h : assignOk op) : quietOk op := by
  cases op with
  | get v => trivial
  | set v x => cases v <;> first | exact h.elim | trivial
  | call hd f => cases f <;> first | exact h.elim | trivial
  | lock | unlock | glCall | free | initWithCString | uninitialized | dispatch | deliver
  | inDelegate => exact h.elim

theorem queueOk_of_quietOk (op : Op) (h : quietOk op) : queueOk op := by
  cases op with
  | call hd f => cases f <;> first | exact h | trivial
  | get | set | lock | unlock | glCall | free | initWithCString | uninitialized | dispatch =>
    exact h
  | deliver | inDelegate => exact h.elim

/-- Every method but `shutDown` is composed of the six getters. -/
theorem Call.composed {c : Call} (hc : c ≠ .shutDown) : Composed quietOk c.body := by
  have hplain (h : c.Plain) : Composed quietOk c.body :=
    .of_only ((Call.assignOk h).mono quietOk_of_assignOk)
  cases c with
  | «open» => exact .of_only (by simp [Call.body, Core.open, quietOk])
  | addSubtitle str => exact .of_only (by simp [Call.body, Core.addSubtitle, quietOk])
  | addAudio str => exact .of_only (by simp [Call.body, Core.addAudio, quietOk])
  | shutDown => exact absurd rfl hc
  | setUrl url => exact .of_only (by simp [Call.body, Core.setUrl, quietOk])
  | setIsStopEvent b => exact .of_only (by simp [Call.body, Core.setIsStopEvent, quietOk])
  | getter g => exact g.body_composed.mono quietOk_of_cacheOk
  | stop | play | pause | seekTime | setIsLog | setOptionDic | setHeaderDic | setAvOptionDic
  | setter => exact hplain trivial

theorem wakeup_quietOk : Only quietOk Core.wakeup := by
  simp [Core.wakeup, readEvents, quietOk]

theorem handleEvent_queueOk (event : Event) : Only queueOk (handleEvent event) := by
  simp only [handleEvent, runCoreEvent]
  split <;> simp [queueOk, quietOk]

theorem readEventsPass_queueOk : Only queueOk readEventsPass := by
  have hevent (event : Event) : Only queueOk (handleEvent event >>= fun _ => .ret true) :=
    (handleEvent_queueOk event).bind fun _ => trivial
  simp [readEventsPass, queueOk, quietOk]
  exact fun _ _ _ event _ => by simpa using hevent event

theorem Block.queueOk (b : Block) : Only queueOk b.body := by
  cases b with
  | readEvents => exact readEventsPass_queueOk
  | loadfile | subAdd | audioAdd => simp [Block.body, runCommand, Core.queueOk, quietOk]

end Core
