-- SUMMARY: The instance variables of `KitNSMPVCore` and the statements its methods are made of.
import KitPlayerCore.Foundation.NSDictionary
import KitPlayerCore.Mpv.Client
import KitPlayerCore.Transition.Program

/-!
# The object

`KitNSMPVCore` keeps its state in instance variables that every thread may read
and write. A method is a program whose operations are the accesses to these
variables and the calls out of the class, so that another thread can come in
between any two of them.
-/

namespace Core

open Mpv Transition

/-- One of the dictionaries that `initTrackList` makes. -/
structure Track where
  id : NSString
  type : NSString
  title : NSString
  lang : NSString
  codec : NSString
  audioChannelCount : NSString
  audioSampleRate : NSString
  deriving DecidableEq, Repr

structure Object where
  mpv : Option Handle := none
  isLoaded : Bool := false
  isError : Bool := false
  isManualStop : Bool := false
  isInitTrack : Bool := false
  subArray : List Track := []
  audioArray : List Track := []
  isStopEvent : Bool := false
  /-- `isStopDraw` of the `lkView`. -/
  isStopDraw : Bool := false
  url : Option NSString := none
  isLog : Bool := false
  optionDic : Option NSDictionary := none
  headerDic : Option NSDictionary := none
  avOptionDic : Option NSDictionary := none
  isMemoryCache : Bool := false
  isProbeInfo : Bool := false
  isAutoSoft : Bool := false
  isHardDecoding : Bool := false
  resumeTime : Float := 0

/-- The instance variables by name. -/
inductive Ivar where
  | mpv | isLoaded | isError | isManualStop | isInitTrack | subArray | audioArray
  | isStopEvent | isStopDraw | url | isLog | optionDic | headerDic | avOptionDic
  | isMemoryCache | isProbeInfo | isAutoSoft | isHardDecoding | resumeTime
  deriving DecidableEq, Repr

@[reducible] def Ivar.type : Ivar → Type
  | .mpv => Option Handle
  | .subArray | .audioArray => List Track
  | .url => Option NSString
  | .optionDic | .headerDic | .avOptionDic => Option NSDictionary
  | .resumeTime => Float
  | .isLoaded | .isError | .isManualStop | .isInitTrack | .isStopEvent | .isStopDraw | .isLog
  | .isMemoryCache | .isProbeInfo | .isAutoSoft | .isHardDecoding => Bool

namespace Object

def get (o : Object) : (v : Ivar) → v.type
  | .mpv => o.mpv
  | .isLoaded => o.isLoaded
  | .isError => o.isError
  | .isManualStop => o.isManualStop
  | .isInitTrack => o.isInitTrack
  | .subArray => o.subArray
  | .audioArray => o.audioArray
  | .isStopEvent => o.isStopEvent
  | .isStopDraw => o.isStopDraw
  | .url => o.url
  | .isLog => o.isLog
  | .optionDic => o.optionDic
  | .headerDic => o.headerDic
  | .avOptionDic => o.avOptionDic
  | .isMemoryCache => o.isMemoryCache
  | .isProbeInfo => o.isProbeInfo
  | .isAutoSoft => o.isAutoSoft
  | .isHardDecoding => o.isHardDecoding
  | .resumeTime => o.resumeTime

def set (o : Object) : (v : Ivar) → v.type → Object
  | .mpv, x => { o with mpv := x }
  | .isLoaded, x => { o with isLoaded := x }
  | .isError, x => { o with isError := x }
  | .isManualStop, x => { o with isManualStop := x }
  | .isInitTrack, x => { o with isInitTrack := x }
  | .subArray, x => { o with subArray := x }
  | .audioArray, x => { o with audioArray := x }
  | .isStopEvent, x => { o with isStopEvent := x }
  | .isStopDraw, x => { o with isStopDraw := x }
  | .url, x => { o with url := x }
  | .isLog, x => { o with isLog := x }
  | .optionDic, x => { o with optionDic := x }
  | .headerDic, x => { o with headerDic := x }
  | .avOptionDic, x => { o with avOptionDic := x }
  | .isMemoryCache, x => { o with isMemoryCache := x }
  | .isProbeInfo, x => { o with isProbeInfo := x }
  | .isAutoSoft, x => { o with isAutoSoft := x }
  | .isHardDecoding, x => { o with isHardDecoding := x }
  | .resumeTime, x => { o with resumeTime := x }

@[simp] theorem get_set_self (o : Object) (v : Ivar) (x : v.type) : (o.set v x).get v = x := by
  cases v <;> rfl

/-- An assignment changes no other variable. -/
theorem get_set_of_ne (o : Object) {v w : Ivar} (x : v.type) (h : w ≠ v) :
    (o.set v x).get w = o.get w := by
  cases v <;> cases w <;> first | rfl | exact absurd rfl h

end Object

/-! ## Operations -/

inductive Lock where
  | shutdownLock | parLock
  deriving DecidableEq, Repr

/-- The blocks that the methods dispatch to the serial queue `queue`. -/
inductive Block where
  | loadfile
  | subAdd (str : NSString)
  | audioAdd (str : NSString)
  | readEvents
  deriving DecidableEq, Repr

/-- `KitNSEventStatus`. -/
inductive EventStatus where
  | readyToPlay | failed | atItemEnd
  deriving DecidableEq, Repr

/-- One statement of a method, or one access in it. -/
inductive Op where
  | get (v : Ivar)
  | set (v : Ivar) (x : v.type)
  | lock (l : Lock)
  | unlock (l : Lock)
  /-- A call of mpv with the handle `h`. -/
  | call (h : Option Handle) (f : Api)
  | glCall (f : GlApi)
  | free (p : Pointer)
  /-- `initWithCString:encoding:`, which answers `nil` for bytes that are not UTF-8. -/
  | initWithCString (p : Pointer)
  /-- A local variable that is declared without a value. -/
  | uninitialized
  /-- `dispatch_async` to `queue`. -/
  | dispatch (b : Block)
  /-- `manageCoreEvent:` is sent to the delegate. -/
  | deliver (status : EventStatus)
  /-- Control is in the delegate, which may call the object before it returns. -/
  | inDelegate

/-- What an operation is answered. -/
@[reducible] def Op.Res : Op → Type
  | .get v => v.type
  | .call _ f => f.Res
  | .initWithCString _ => Option NSString
  | .uninitialized => Float
  | .set _ _ | .lock _ | .unlock _ | .glCall _ | .free _ | .dispatch _ | .deliver _
  | .inDelegate => Unit

theorem Op.nonempty_res (op : Op) : Nonempty op.Res := by
  cases op with
  | get v => cases v with
    | mpv | url => exact ⟨none⟩
    | subArray | audioArray => exact ⟨[]⟩
    | optionDic | headerDic | avOptionDic => exact ⟨none⟩
    | resumeTime => exact ⟨(0 : Float)⟩
    | isLoaded | isError | isManualStop | isInitTrack | isStopEvent | isStopDraw | isLog
    | isMemoryCache | isProbeInfo | isAutoSoft | isHardDecoding => exact ⟨false⟩
  | call h f => cases f with
    | setOptionString | command | setProperty => exact ⟨(0 : Int)⟩
    | getProperty name format => exact ⟨.error 0⟩
    | waitEvent => exact ⟨⟨.none, .none⟩⟩
    | clearWakeupCallback | detachDestroy => exact ⟨()⟩
  | initWithCString => exact ⟨none⟩
  | uninitialized => exact ⟨(0 : Float)⟩
  | set | lock | unlock | glCall | free | dispatch | deliver | inDelegate => exact ⟨()⟩

end Core

/-- The body of a method of `KitNSMPVCore`, or the part of it that is left. -/
abbrev Core := Transition.Program Core.Op Core.Op.Res

namespace Core

open Mpv

@[simp] def get (v : Ivar) : Core v.type := .perform (Op.get v)

@[simp] def set (v : Ivar) (x : v.type) : Core Unit := .perform (Op.set v x)

@[simp] def lock (l : Lock) : Core Unit := .perform (Op.lock l)

@[simp] def unlock (l : Lock) : Core Unit := .perform (Op.unlock l)

/-- Call mpv with the handle that the variable `mpv` holds at the call. -/
@[simp] def call (f : Api) : Core f.Res := do
  let h ← get .mpv
  .perform (Op.call h f)

@[simp] def glCall (f : GlApi) : Core Unit := .perform (Op.glCall f)

@[simp] def free (p : Pointer) : Core Unit := .perform (Op.free p)

@[simp] def initWithCString (p : Pointer) : Core (Option NSString) := .perform (Op.initWithCString p)

@[simp] def localDouble : Core Float := .perform Op.uninitialized

@[simp] def dispatch (b : Block) : Core Unit := .perform (Op.dispatch b)

@[simp] def deliver (status : EventStatus) : Core Unit := .perform (Op.deliver status)

@[simp] def inDelegate : Core Unit := .perform Op.inDelegate

end Core
