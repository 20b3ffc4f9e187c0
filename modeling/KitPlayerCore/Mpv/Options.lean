-- SUMMARY: The options of mpv that go with a network stream, and what setting one of them does.
import KitPlayerCore.Mpv.Client
import KitPlayerCore.Mpv.KeyValueList
import KitPlayerCore.Mpv.StringList

/-!
# Options

An option that is set replaces its value as a whole. A value that the parser of the
option rejects leaves the old one in force.
-/

namespace Mpv

/-- The values in force. -/
structure Options where
  /-- `user-agent`. -/
  userAgent : CString := []
  /-- `http-header-fields`. -/
  httpHeaderFields : List CString := []
  /-- `demuxer-lavf-o`. -/
  demuxerLavfO : List (CString × CString) := []
  deriving DecidableEq, Repr

namespace Options

/-- `mpv_set_option_string`: the status, and the values in force after it. The player
    sets further options, of which no value is kept here. -/
def setOptionString (o : Options) (name data : CString) : Int × Options :=
  if name = NSString.utf8String "user-agent" then
    (0, { o with userAgent := data })
  else if name = NSString.utf8String "http-header-fields" then
    (0, { o with httpHeaderFields := parseStrList optionListSeparator data })
  else if name = NSString.utf8String "demuxer-lavf-o" then
    match parseKeyvalueList [] data with
    | .ok lst => (0, { o with demuxerLavfO := lst })
    -- MPV_ERROR_OPTION_ERROR
    | .error _ => (-7, o)
  else (0, o)

theorem setOptionString_userAgent (o : Options) (data : CString) :
    o.setOptionString (NSString.utf8String "user-agent") data =
      (0, { o with userAgent := data }) := by
  simp [setOptionString]

theorem setOptionString_httpHeaderFields (o : Options) (data : CString) :
    o.setOptionString (NSString.utf8String "http-header-fields") data =
      (0, { o with httpHeaderFields := parseStrList optionListSeparator data }) := by
  have hne : NSString.utf8String "http-header-fields" ≠ NSString.utf8String "user-agent" := by
    decide
  simp [setOptionString, hne]

theorem setOptionString_demuxerLavfO (o : Options) (data : CString) :
    o.setOptionString (NSString.utf8String "demuxer-lavf-o") data =
      match parseKeyvalueList [] data with
      | .ok lst => (0, { o with demuxerLavfO := lst })
      | .error _ => (-7, o) := by
  have hua : NSString.utf8String "demuxer-lavf-o" ≠ NSString.utf8String "user-agent" := by decide
  have hhttp : NSString.utf8String "demuxer-lavf-o" ≠
      NSString.utf8String "http-header-fields" := by decide
  simp [setOptionString, hua, hhttp]

end Options

end Mpv
