-- SUMMARY: The public calls of `KitNSMPVCore`, each with the method it runs.
import KitPlayerCore.Core.Methods

/-!
# The interface

A caller outside of the class sees the methods and properties of the header.
-/

namespace Core

open Mpv

/-- The public methods that read the player. -/
inductive Getter where
  | duration | currentTime | remainTime | width | widthInt | height | heightInt | isHDR
  | videoFormat | audioFormat | fps | isPlay | bitDepth | samplerate | channelCount
  | channelsType | videoBitrate | audioBitrate | audioSpeed | isLive | isMute | audioCount
  | subtitleCount | initTrackList
  | getParameterStr (key : NSString)
  deriving DecidableEq, Repr

/-- The public methods that set a property of mpv. -/
inductive Setter where
  | setParameterString (key value : NSString)
  | setParameterEnable (key : NSString) (isCheck : Bool)
  | setParameterDouble (key : NSString) (value : Float)
  | setParameterInt (key : NSString) (value : Int)
  | setIsMemoryCache (isMemoryCache : Bool)
  | setCacheSecs (seconds : Int)
  | setReadaheadSecs (seconds : Int)
  | setReadMaxBytes (str : NSString)
  | setBackMaxBytes (str : NSString)
  | setIsProbeInfo (isProbeInfo : Bool)
  | setIsAutoSoft (isAutoSoft : Bool)
  | setIsHardDecoding (isHardDecoding : Bool)
  | setRenderMode (type : NSString)
  | setHardwareFormat (type : NSString)
  | setAudioSpeed (value : Float)
  | setIsMute (isMute : Bool)
  | setResumeTime (resumeTime : Float)
  | setIsNoAudio (isNoAudio : Bool)
  | setIsNoSub (isNoSub : Bool)
  | setFontName (fontName : NSString)
  | setFontSize (fontSize : Int)
  | setFontMarginY (fontMarginY : Int)
  | setSubIndex (index : Int)
  | setAudioIndex (index : Int)

inductive Call where
  | open
  | stop
  | play
  | pause
  | seekTime (time : Float) (isExa : Bool)
  | addSubtitle (str : NSString)
  | addAudio (str : NSString)
  | shutDown
  | setUrl (url : Option NSString)
  | setIsStopEvent (isStopEvent : Bool)
  | setIsLog (isLog : Bool) (logFile : NSString)
  | setOptionDic (optionDic : Option NSDictionary)
  | setHeaderDic (headerDic : Option NSDictionary)
  | setAvOptionDic (avOptionDic : Option NSDictionary)
  | setter (s : Setter)
  | getter (g : Getter)

/-- Run the getter for its effects. -/
def Getter.body : Getter → Core Unit
  | .duration => discard Core.duration
  | .currentTime => discard Core.currentTime
  | .remainTime => discard Core.remainTime
  | .width => discard Core.width
  | .widthInt => discard Core.widthInt
  | .height => discard Core.height
  | .heightInt => discard Core.heightInt
  | .isHDR => discard Core.isHDR
  | .videoFormat => discard Core.videoFormat
  | .audioFormat => discard Core.audioFormat
  | .fps => discard Core.fps
  | .isPlay => discard Core.isPlay
  | .bitDepth => discard Core.bitDepth
  | .samplerate => discard Core.samplerate
  | .channelCount => discard Core.channelCount
  | .channelsType => discard Core.channelsType
  | .videoBitrate => discard Core.videoBitrate
  | .audioBitrate => discard Core.audioBitrate
  | .audioSpeed => discard Core.audioSpeed
  | .isLive => discard Core.isLive
  | .isMute => discard Core.isMute
  | .audioCount => discard Core.audioCount
  | .subtitleCount => discard Core.subtitleCount
  | .initTrackList => discard Core.initTrackList
  | .getParameterStr key => discard (Core.getParameterStr key)

/-- What a getter returns. -/
inductive Reading where
  | double (x : Float)
  | int (n : Int)
  | bool (b : Bool)
  | text (s : Option NSString)
  | count (n : Option Nat)
  /-- `initTrackList` returns nothing, but it may raise. -/
  | done (ok : Bool)

/-- Run the getter for what it returns. -/
def Getter.read : Getter → Core Reading
  | .duration => .double <$> Core.duration
  | .currentTime => .double <$> Core.currentTime
  | .remainTime => .double <$> Core.remainTime
  | .width => .double <$> Core.width
  | .widthInt => .int <$> Core.widthInt
  | .height => .double <$> Core.height
  | .heightInt => .int <$> Core.heightInt
  | .isHDR => .bool <$> Core.isHDR
  | .videoFormat => .text <$> Core.videoFormat
  | .audioFormat => .text <$> Core.audioFormat
  | .fps => .double <$> Core.fps
  | .isPlay => .bool <$> Core.isPlay
  | .bitDepth => .text <$> Core.bitDepth
  | .samplerate => .text <$> Core.samplerate
  | .channelCount => .text <$> Core.channelCount
  | .channelsType => .text <$> Core.channelsType
  | .videoBitrate => .text <$> Core.videoBitrate
  | .audioBitrate => .text <$> Core.audioBitrate
  | .audioSpeed => .double <$> Core.audioSpeed
  | .isLive => .bool <$> Core.isLive
  | .isMute => .bool <$> Core.isMute
  | .audioCount => .count <$> Core.audioCount
  | .subtitleCount => .count <$> Core.subtitleCount
  | .initTrackList => .done <$> Core.initTrackList
  | .getParameterStr key => .text <$> Core.getParameterStr key

theorem discard_eq {α β : Type} (p : Core α) (f : α → β) :
    discard p = (f <$> p) >>= fun _ => .ret () :=
  (Transition.Program.bind_assoc p (fun a => .ret (f a)) fun _ => .ret ()).symm

/-- A getter does the same whether its value is used or not. -/
theorem Getter.body_eq (g : Getter) : g.body = g.read >>= fun _ => .ret () := by
  cases g <;> exact discard_eq _ _

def Setter.body : Setter → Core Unit
  | .setParameterString key value => Core.setParameterString key value
  | .setParameterEnable key isCheck => Core.setParameterEnable key isCheck
  | .setParameterDouble key value => Core.setParameterDouble key value
  | .setParameterInt key value => Core.setParameterInt key value
  | .setIsMemoryCache isMemoryCache => Core.setIsMemoryCache isMemoryCache
  | .setCacheSecs seconds => Core.setCacheSecs seconds
  | .setReadaheadSecs seconds => Core.setReadaheadSecs seconds
  | .setReadMaxBytes str => Core.setReadMaxBytes str
  | .setBackMaxBytes str => Core.setBackMaxBytes str
  | .setIsProbeInfo isProbeInfo => Core.setIsProbeInfo isProbeInfo
  | .setIsAutoSoft isAutoSoft => Core.setIsAutoSoft isAutoSoft
  | .setIsHardDecoding isHardDecoding => Core.setIsHardDecoding isHardDecoding
  | .setRenderMode type => Core.setRenderMode type
  | .setHardwareFormat type => Core.setHardwareFormat type
  | .setAudioSpeed value => Core.setAudioSpeed value
  | .setIsMute isMute => Core.setIsMute isMute
  | .setResumeTime resumeTime => Core.setResumeTime resumeTime
  | .setIsNoAudio isNoAudio => Core.setIsNoAudio isNoAudio
  | .setIsNoSub isNoSub => Core.setIsNoSub isNoSub
  | .setFontName fontName => Core.setFontName fontName
  | .setFontSize fontSize => Core.setFontSize fontSize
  | .setFontMarginY fontMarginY => Core.setFontMarginY fontMarginY
  | .setSubIndex index => Core.setSubIndex index
  | .setAudioIndex index => Core.setAudioIndex index

def Call.body : Call → Core Unit
  | .open => Core.open
  | .stop => Core.stop
  | .play => Core.play
  | .pause => Core.pause
  | .seekTime time isExa => Core.seekTime time isExa
  | .addSubtitle str => Core.addSubtitle str
  | .addAudio str => Core.addAudio str
  | .shutDown => Core.shutDown
  | .setUrl url => Core.setUrl url
  | .setIsStopEvent isStopEvent => Core.setIsStopEvent isStopEvent
  | .setIsLog isLog logFile => Core.setIsLog isLog logFile
  | .setOptionDic optionDic => Core.setOptionDic optionDic
  | .setHeaderDic headerDic => Core.setHeaderDic headerDic
  | .setAvOptionDic avOptionDic => Core.setAvOptionDic avOptionDic
  | .setter s => s.body
  | .getter g => g.body

/-- The command that the call is for, when `url` is set as given. -/
def Call.command (url : Option NSString) : Call → Option (List CString)
  | .open => url.map fun _ => Block.loadfile.command url
  | .stop => some [cstr "stop"]
  | .seekTime time isExa => some (seekCommand time isExa)
  | .addSubtitle str => some ((Block.subAdd str).command url)
  | .addAudio str => some ((Block.audioAdd str).command url)
  | _ => none

end Core
