-- SUMMARY: The methods of `KitNSMPVCore`, statement by statement.
import KitPlayerCore.Core.Object
import Mathlib.Data.List.Infix

/-!
# The methods

Each method is a program over the operations of `Core.Op`, under the name it has
in the source. `NSLog`, `printf` and `check_error` only print and are left out.
-/

namespace Core

open Mpv

/-- A string literal that is passed to mpv. -/
def cstr (s : String) : CString := NSString.utf8String s

/-! ## Options -/

/-- The loop of `setOptionDic:` over the keys that are left. -/
def setOptions (dic : NSDictionary) : List NSString → Core Unit
  | [] => return
  | key :: keys => do
    -- UTF8String of nil is NULL, which mpv reads as an empty string
    let value := (dic.valueForKey key).elim [] NSString.utf8String
    let _ ← call (.setOptionString (NSString.utf8String key) value)
    setOptions dic keys

def setOptionDic (optionDic : Option NSDictionary) : Core Unit := do
  set .optionDic optionDic
  match optionDic with
  | none => return
  | some dic => setOptions dic dic.allKeys

/-- `setIsLog:`, where `logFile` is the name of a file for the current date. -/
def setIsLog (isLog : Bool) (logFile : NSString) : Core Unit := do
  set .isLog isLog
  if isLog then
    let _ ← call (.setOptionString (cstr "log-file") (NSString.utf8String logFile))

/-- What one key adds to the string. `nil` prints as `(null)`. -/
def formatPar (formatStr : String) (dic : NSDictionary) (key : NSString) : List Char :=
  let value := dic.valueForKey key
  NSString.withFormat formatStr.toList [key.trim, value.elim "(null)" NSString.trim]

/-- `formatParToStr:Format:`. The last character is deleted by its UTF-16 unit,
    and both formats end with a comma, which is one unit. -/
def formatParToStr (dic : Option NSDictionary) (formatStr : String) : NSString :=
  match dic with
  | none => ""
  | some dic => .ofList (dic.allKeys.flatMap (formatPar formatStr dic)).dropLast

def setHeaderDic (headerDic : Option NSDictionary) : Core Unit := do
  set .headerDic headerDic
  match headerDic with
  | none => return
  | some dic =>
    match dic.valueForKey "User-Agent" with
    | none => pure ()
    | some uaStr =>
      let _ ← call (.setOptionString (cstr "user-agent") (NSString.utf8String uaStr))
    let tmpStr := formatParToStr headerDic "%@: %@,"
    if tmpStr ≠ "" then
      let _ ← call (.setOptionString (cstr "http-header-fields") (NSString.utf8String tmpStr))

def setAvOptionDic (avOptionDic : Option NSDictionary) : Core Unit := do
  set .avOptionDic avOptionDic
  let tmpStr := formatParToStr avOptionDic "%@=%@,"
  if tmpStr ≠ "" then
    let _ ← call (.setOptionString (cstr "demuxer-lavf-o") (NSString.utf8String tmpStr))

/-! ## Playback -/

def setUrl (url : Option NSString) : Core Unit := set .url url

def setIsStopEvent (isStopEvent : Bool) : Core Unit := set .isStopEvent isStopEvent

def «open» : Core Unit := do
  if (← get .mpv).isNone then return
  if (← get .url).isNone then return
  set .isManualStop true
  dispatch .loadfile

def stop : Core Unit := do
  if (← get .mpv).isNone then return
  let _ ← call (.command [cstr "stop"])

/-- `pause` and `play`, which set the property to 1 and to 0. -/
def setPause (pause : Int) : Core Unit := do
  if (← get .mpv).isNone then return
  if !(← get .isLoaded) then return
  if ← get .isStopEvent then return
  let _ ← call (.setProperty (cstr "pause") (.flag pause))

def pause : Core Unit := setPause 1

def play : Core Unit := setPause 0

/-- The arguments of the command that `seekTime:isExact:` gives. The time is
    printed with `%f`, as `toString` prints it. -/
def seekCommand (time : Float) (isExa : Bool) : List CString :=
  let cmdStr := if isExa then "absolute+exact" else "absolute+keyframes"
  [cstr "seek", cstr (toString time), cstr cmdStr]

def seekTime (time : Float) (isExa : Bool) : Core Unit := do
  if (← get .mpv).isNone then return
  let _ ← call (.command (seekCommand time isExa))

def addSubtitle (str : NSString) : Core Unit := do
  if (← get .mpv).isNone then return
  dispatch (.subAdd str)

def addAudio (str : NSString) : Core Unit := do
  if (← get .mpv).isNone then return
  dispatch (.audioAdd str)

def shutDown : Core Unit := do
  lock .shutdownLock
  if (← get .mpv).isNone then
    unlock .shutdownLock
    return
  set .isStopEvent true
  set .isStopDraw true
  call .clearWakeupCallback
  glCall .clearUpdateCallback
  glCall .uninitGl
  call .detachDestroy
  set .mpv none
  unlock .shutdownLock

/-! ## Events -/

def readEvents : Core Unit := dispatch .readEvents

/-- The callback that mpv is given. -/
def wakeup : Core Unit := do
  if ← get .isStopEvent then return
  readEvents

/-- What `mpv_set_wakeup_callback` leaves on the queue in `initView`: it calls the callback. -/
def registered (o : Object) : List Block := if o.isStopEvent then [] else [.readEvents]

theorem eq_of_mem_registered {o : Object} {b : Block} (h : b ∈ registered o) : b = .readEvents := by
  unfold registered at h
  split at h
  · cases h
  · exact List.mem_singleton.mp h

def runCoreEvent (status : EventStatus) : Core Unit := do
  deliver status
  inDelegate

def handleEvent (event : Event) : Core Unit := do
  match event.eventId with
  -- a log message is printed and falls through
  | .logMessage | .fileLoaded => return
  | .playbackRestart =>
    if !(← get .isManualStop) then
      if !(← get .isLoaded) then
        set .isLoaded true
        runCoreEvent .readyToPlay
  | .endFile =>
    if !(← get .isManualStop) then
      if !(← get .isLoaded) then
        set .isError true
        runCoreEvent .failed
        return
      runCoreEvent .atItemEnd
  | .startFile =>
    set .isLoaded false
    set .isError false
    set .isManualStop false
    set .isStopEvent false
    set .isInitTrack false
    set .subArray []
    set .audioArray []
  | _ => return

/-! ## The serial queue -/

/-- One pass of the loop in the block of `readEvents`; whether it goes on. -/
def readEventsPass : Core Bool := do
  if (← get .mpv).isNone then return false
  if ← get .isStopEvent then return false
  let event ← call .waitEvent
  if event.eventId = .none then return false
  handleEvent event
  return true

/-- A block that gives one command, and ends. -/
def runCommand (args : List CString) : Core Bool := do
  let _ ← call (.command args)
  return false

/-- `UTF8String` as the last argument of a command: `NULL` ends the arguments. -/
def lastArg (s : Option NSString) : List CString := (s.map NSString.utf8String).toList

/-- The block gives mpv a command. -/
def Block.isCommand : Block → Bool
  | .readEvents => false
  | .loadfile | .subAdd _ | .audioAdd _ => true

/-- The command that the block gives when `url` is the URL it reads. -/
def Block.command (url : Option NSString) : Block → List CString
  | .loadfile => cstr "loadfile" :: lastArg url
  | .subAdd str => cstr "sub-add" :: lastArg (some str)
  | .audioAdd str => cstr "audio-add" :: lastArg (some str)
  | .readEvents => []

/-- What the queue runs for a block. After `true` it makes another pass. -/
def Block.body : Block → Core Bool
  | .readEvents => readEventsPass
  | .loadfile => do
    let url ← get .url
    runCommand (Block.loadfile.command url)
  | .subAdd str => runCommand ((Block.subAdd str).command none)
  | .audioAdd str => runCommand ((Block.audioAdd str).command none)

/-! ## Getters -/

/-- The five getters of a double differ in the property they read. -/
def doubleGetter (name : String) : Core Float := do
  lock .parLock
  let x ← localDouble
  if (← get .mpv).isNone then
    unlock .parLock
    return 0
  if !(← get .isLoaded) then
    unlock .parLock
    return 0
  let r ← call (.getProperty (cstr name) .double)
  unlock .parLock
  return r.toOption.getD x

def duration : Core Float := doubleGetter "duration"

def currentTime : Core Float := doubleGetter "time-pos"

def remainTime : Core Float := doubleGetter "time-remaining"

def width : Core Float := doubleGetter "width"

def height : Core Float := doubleGetter "height"

def getParameterStr (key : NSString) : Core (Option NSString) := do
  lock .parLock
  if (← get .mpv).isNone then
    unlock .parLock
    return some ""
  if !(← get .isLoaded) then
    unlock .parLock
    return some ""
  if ← get .isStopEvent then
    unlock .parLock
    return some ""
  match ← call (.getProperty (NSString.utf8String key) .string) with
  | .error _ =>
    unlock .parLock
    return some ""
  | .ok str =>
    -- the string is read after it was freed
    free str
    let resultStr ← initWithCString str
    unlock .parLock
    return resultStr

/-- A message to `nil` answers 0. -/
def intGetter (key : NSString) : Core Int := do
  return ((← getParameterStr key).map NSString.intValue).getD 0

def widthInt : Core Int := intGetter "video-params/w"

def heightInt : Core Int := intGetter "video-params/h"

def isHDR : Core Bool := do
  let colorSpaceStr ← getParameterStr "video-params/primaries"
  -- rangeOfString: sent to nil answers location 0, which is not NSNotFound
  return colorSpaceStr.all fun s => "bt.2020".toList <:+: s.toList

def videoFormat : Core (Option NSString) := getParameterStr "video-format"

def fps : Core Float := do
  let mut fpsStr ← getParameterStr "container-fps"
  if fpsStr = some "" then
    fpsStr ← getParameterStr "estimated-vf-fps"
  return (fpsStr.map NSString.doubleValue).getD 0

def isPlay : Core Bool := do
  return (← getParameterStr "pause") = some "no"

def bitDepth : Core (Option NSString) := getParameterStr "video-params/plane-depth"

def audioFormat : Core (Option NSString) := getParameterStr "audio-codec-name"

def samplerate : Core (Option NSString) := getParameterStr "audio-params/samplerate"

def channelCount : Core (Option NSString) := getParameterStr "audio-params/channel-count"

def channelsType : Core (Option NSString) := getParameterStr "audio-params/channels"

def videoBitrate : Core (Option NSString) := getParameterStr "video-bitrate"

def audioBitrate : Core (Option NSString) := getParameterStr "audio-bitrate"

def audioSpeed : Core Float := do
  return ((← getParameterStr "speed").map NSString.doubleValue).getD 0

def isLive : Core Bool := do
  return (← duration) < 120

def isMute : Core Bool := do
  return (← getParameterStr "mute") = some "yes"

/-! ## Setters -/

def setParameter (key : NSString) (value : Value) : Core Unit := do
  if (← get .mpv).isNone then return
  if ← get .isStopEvent then return
  let _ ← call (.setProperty (NSString.utf8String key) value)

def setParameterString (key value : NSString) : Core Unit :=
  setParameter key (.string (NSString.utf8String value))

def setParameterDouble (key : NSString) (value : Float) : Core Unit :=
  setParameter key (.double value)

def setParameterInt (key : NSString) (value : Int) : Core Unit := setParameter key (.int64 value)

def setParameterEnable (key : NSString) (isCheck : Bool) : Core Unit :=
  setParameter key (.flag (if isCheck then 1 else 0))

def yesNo (b : Bool) : NSString := if b then "yes" else "no"

def setIsMemoryCache (isMemoryCache : Bool) : Core Unit := do
  set .isMemoryCache isMemoryCache
  setParameterString "cache" (yesNo isMemoryCache)

def setCacheSecs (seconds : Int) : Core Unit := setParameterString "cache-secs" (toString seconds)

def setReadaheadSecs (seconds : Int) : Core Unit :=
  setParameterString "demuxer-readahead-secs" (toString seconds)

def setReadMaxBytes (str : NSString) : Core Unit := setParameterString "demuxer-max-bytes" str

def setBackMaxBytes (str : NSString) : Core Unit := setParameterString "demuxer-max-back-bytes" str

def setIsProbeInfo (isProbeInfo : Bool) : Core Unit := do
  set .isProbeInfo isProbeInfo
  setParameterString "demuxer-lavf-probe-info" (yesNo isProbeInfo)

def setIsAutoSoft (isAutoSoft : Bool) : Core Unit := do
  set .isAutoSoft isAutoSoft
  setParameterString "vd-lavc-software-fallback" (yesNo isAutoSoft)

def setIsHardDecoding (isHardDecoding : Bool) : Core Unit := do
  set .isHardDecoding isHardDecoding
  if isHardDecoding then
    setParameterString "hwdec-codecs" "all"
  setParameterString "hwdec" (yesNo isHardDecoding)

def setRenderMode (type : NSString) : Core Unit := setParameterString "vo" type

def setHardwareFormat (type : NSString) : Core Unit := setParameterString "hwdec-image-format" type

def setAudioSpeed (value : Float) : Core Unit := setParameterDouble "speed" value

def setIsMute (isMute : Bool) : Core Unit := setParameterString "mute" (yesNo isMute)

def setResumeTime (resumeTime : Float) : Core Unit := do
  set .resumeTime resumeTime
  setParameterString "start" ("+" ++ toString resumeTime)

def setIsNoAudio (isNoAudio : Bool) : Core Unit := do
  if isNoAudio then
    setParameterString "aid" "no"

def setIsNoSub (isNoSub : Bool) : Core Unit := do
  if isNoSub then
    setParameterString "sid" "no"

def setFontName (fontName : NSString) : Core Unit := setParameterString "sub-font" fontName

def setFontSize (fontSize : Int) : Core Unit := setParameterInt "sub-font-size" fontSize

def setFontMarginY (fontMarginY : Int) : Core Unit := setParameterInt "sub-margin-y" fontMarginY

def setSubIndex (index : Int) : Core Unit := setParameterInt "sid" index

def setAudioIndex (index : Int) : Core Unit := setParameterInt "aid" index

/-! ## Tracks -/

def trackParameter (i : Nat) (name : String) : Core (Option NSString) :=
  getParameterStr s!"track-list/{i}/{name}"

/-- `setObject:forKey:` raises on `nil`, and then the method does not go on. -/
def unlessNil (p : Core (Option NSString)) (f : NSString → Core Bool) : Core Bool := do
  match ← p with
  | none => return false
  | some s => f s

/-- What `initTrackList` does with a dictionary that it has filled. -/
def addTrack (dic : Track) : Core Unit := do
  if dic.type = "audio" then
    set .audioArray ((← get .audioArray) ++ [dic])
  else if dic.type = "sub" then
    set .subArray ((← get .subArray) ++ [dic])

/-- One pass of the loop in `initTrackList`; whether it did not raise. -/
def readTrack (i : Nat) : Core Bool :=
  unlessNil (trackParameter i "id") fun id =>
  unlessNil (trackParameter i "type") fun type =>
  unlessNil (trackParameter i "title") fun title =>
  unlessNil (trackParameter i "lang") fun lang =>
  unlessNil (trackParameter i "codec") fun codec =>
  unlessNil (trackParameter i "demux-channel-count") fun audioChannelCount =>
  unlessNil (trackParameter i "demux-samplerate") fun audioSampleRate => do
    addTrack { id, type, title, lang, codec, audioChannelCount, audioSampleRate }
    return true

/-- The loop of `initTrackList`, for `n` more tracks from number `i` on. -/
def readTracks (i : Nat) : Nat → Core Bool
  | 0 => return true
  | n + 1 => do
    if ← readTrack i then readTracks (i + 1) n else return false

/-- `initTrackList`; whether it did not raise. -/
def initTrackList : Core Bool := do
  if !(← get .isInitTrack) then
    set .isInitTrack true
    readTracks 0 (← intGetter "track-list/count").toNat
  else
    return true

/-- The length of the array, `none` where `initTrackList` raised. -/
def audioCount : Core (Option Nat) := do
  if ← initTrackList then return some (← get .audioArray).length else return none

def subtitleCount : Core (Option Nat) := do
  if ← initTrackList then return some (← get .subArray).length else return none

end Core
