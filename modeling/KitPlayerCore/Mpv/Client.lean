-- SUMMARY: The part of mpv's client API that the player calls: handles, events, and the calls with their answers.
import KitPlayerCore.Foundation.NSString

/-!
# The client API

The calls that take an `mpv_handle`. What a call answers is decided by mpv, so
`Api.Res` only says what an answer looks like. Text that the player merely
prints (log messages, error strings, event names) is left out.
-/

namespace Mpv

/-- `mpv_handle *`: which call of `mpv_create` returned it. -/
abbrev Handle := Nat

/-! ## Events -/

inductive EventId where
  | none | shutdown | logMessage | getPropertyReply | setPropertyReply | commandReply
  | startFile | endFile | fileLoaded | tracksChanged | trackSwitched | idle | pause | unpause
  | tick | scriptInputDispatch | clientMessage | videoReconfig | audioReconfig | metadataUpdate
  | seek | playbackRestart | propertyChange | chapterChange | queueOverflow | hook
  deriving DecidableEq, Repr

/-- `mpv_end_file_reason`. -/
inductive EndFileReason where
  | eof | stop | quit | error | redirect
  deriving DecidableEq, Repr

/-- `event->data`, where the player is given any. -/
inductive EventData where
  | none
  | endFile (reason : EndFileReason) (error : Int)
  deriving DecidableEq, Repr

structure Event where
  eventId : EventId
  data : EventData := .none
  deriving DecidableEq, Repr

/-! ## Calls -/

/-- What a `char *` that mpv allocated points to is looked up in the heap. -/
abbrev Pointer := Nat

inductive Format where
  | string | flag | int64 | double
  deriving DecidableEq, Repr

/-- What `mpv_get_property` stores for a format. -/
@[reducible] def Format.type : Format → Type
  | .string => Pointer
  | .flag => Int
  | .int64 => Int
  | .double => Float

/-- What `mpv_set_property` is passed. -/
inductive Value where
  | string (s : CString)
  | flag (b : Int)
  | int64 (n : Int)
  | double (d : Float)

/-- The calls that take the handle, with their other arguments. -/
inductive Api where
  | setOptionString (name data : CString)
  | command (args : List CString)
  | setProperty (name : CString) (value : Value)
  | getProperty (name : CString) (format : Format)
  /-- `mpv_wait_event` with timeout 0. -/
  | waitEvent
  /-- `mpv_set_wakeup_callback` with `NULL`. -/
  | clearWakeupCallback
  | detachDestroy

/-- What a call answers. A status below 0 is an error, and then
    `mpv_get_property` stores nothing. -/
@[reducible] def Api.Res : Api → Type
  | .setOptionString _ _ => Int
  | .command _ => Int
  | .setProperty _ _ => Int
  | .getProperty _ format => Except Int format.type
  | .waitEvent => Event
  | .clearWakeupCallback => Unit
  | .detachDestroy => Unit

/-- The calls of the `opengl-cb` API, which take the context and not the handle. -/
inductive GlApi where
  /-- `mpv_opengl_cb_set_update_callback` with `NULL`. -/
  | clearUpdateCallback
  | uninitGl
  deriving DecidableEq, Repr

end Mpv
