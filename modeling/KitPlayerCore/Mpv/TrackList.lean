-- SUMMARY: The property `track-list` of mpv: the entries, and what is reported for a path into them.
import KitPlayerCore.Mpv.Client
import KitPlayerCore.Mpv.KeyValueList

/-!
# The track list

A path such as `track-list/2/title` names a property of one track. Only those that
the player asks for are modelled, and all of them are read as strings.
-/

namespace Mpv

/-- `enum stream_type`. -/
inductive StreamType where
  | video | audio | sub
  deriving DecidableEq, Repr

/-- `stream_type_name`. -/
def StreamType.name : StreamType → NSString
  | .video => "video"
  | .audio => "audio"
  | .sub => "sub"

/-- `struct track` with the codec parameters of its stream. -/
structure TrackEntry where
  userTid : Int
  type : StreamType
  title : Option CString := none
  lang : Option CString := none
  codec : Option CString := none
  channels : Int := 0
  samplerate : Int := 0
  deriving DecidableEq, Repr

/-- An integer as `m_option_print` prints it. -/
def printInt (n : Int) : CString := NSString.utf8 (toString n)

/-- What `get_track_entry` reports, `none` for what is unavailable. -/
def TrackEntry.properties (t : TrackEntry) : List (NSString × Option CString) :=
  [("id", some (printInt t.userTid)),
    ("type", some (NSString.utf8 t.type.name)),
    ("title", t.title),
    ("lang", t.lang),
    ("codec", t.codec),
    ("demux-channel-count", if t.channels = 0 then none else some (printInt t.channels)),
    ("demux-samplerate", if t.samplerate = 0 then none else some (printInt t.samplerate))]

/-- `m_property_read_sub`. -/
def TrackEntry.property (t : TrackEntry) (key : CString) : Option CString :=
  (t.properties.find? fun p => p.1.utf8 = key).bind Prod.snd

/-- Each property has its own name. -/
theorem TrackEntry.property_of_mem {t : TrackEntry} {key : NSString} {value : Option CString}
    (h : (key, value) ∈ t.properties) : t.property key.utf8 = value := by
  have hnodup : (t.properties.map Prod.fst).Nodup := by
    have hkeys : t.properties.map Prod.fst =
        ["id", "type", "title", "lang", "codec", "demux-channel-count", "demux-samplerate"] := rfl
    rw [hkeys]
    decide
  have hfind : (t.properties.find? fun p => p.1.utf8 = key.utf8) = some (key, value) := by
    generalize t.properties = properties at h hnodup
    induction properties with
    | nil => cases h
    | cons p properties ih =>
      obtain ⟨hne, hrest⟩ := List.nodup_cons.mp hnodup
      rcases List.mem_cons.mp h with rfl | h
      · simp
      · have hp : p.1 ≠ key := by
          rintro rfl
          exact hne (List.mem_map.mpr ⟨_, h, rfl⟩)
        rw [List.find?_cons_of_neg (by simpa using mt NSString.utf8_injective hp)]
        exact ih h hrest
  rw [TrackEntry.property, hfind]
  rfl

/-- The byte is a decimal digit. -/
def isDecimal (c : UInt8) : Bool := 48 ≤ c.toNat ∧ c.toNat ≤ 57

/-- The value of the digits, most significant first. -/
def decimalValue (digits : CString) : Nat := digits.foldl (fun n c => 10 * n + (c.toNat - 48)) 0

/-- `strtol` with base 10: the number, cut off at the range of `long`, and how many
    bytes it takes. -/
def strtol (str : CString) : Int × Nat :=
  let space := (str.takeWhile isSpace).length
  let (negative, sign) := match str.drop space with
    | c :: _ => (c == '-'.toUInt8, if c = '-'.toUInt8 ∨ c = '+'.toUInt8 then 1 else 0)
    | [] => (false, 0)
  let digits := (str.drop (space + sign)).takeWhile isDecimal
  let value : Int := decimalValue digits
  if digits = [] then (0, 0)
  else
    (max (-2 ^ 63) (min (if negative then -value else value) (2 ^ 63 - 1)),
      space + sign + digits.length)

/-- `m_property_read_list` for the properties of `tracks`. An item as a whole, which the
    player never asks for, is left out. -/
def readList (tracks : List TrackEntry) (key : CString) : Option CString :=
  if key = NSString.utf8 "count" then some (printInt tracks.length)
  else
    let next := key.findIdx? (· = '/'.toUInt8)
    let (item, last) := strtol key
    if (last ≠ key.length ∨ key = []) ∧ some last ≠ next then none
    else if item < 0 ∨ tracks.length ≤ item then none
    else next.bind fun n => tracks[item.toNat]?.bind fun t => t.property (key.drop (n + 1))

/-- The path of `track-list`, up to the key. -/
def trackListPath : CString := NSString.utf8 "track-list/"

/-- What `mpv_get_property` reports as a string for a path into `track-list`. -/
def getTrackList (tracks : List TrackEntry) (name : CString) : Option CString :=
  if trackListPath <+: name then readList tracks (name.drop trackListPath.length) else none

/-! ## Reading numbers -/

theorem decimalValue_map {ds : List Char} (h : ∀ d ∈ ds, d.toNat ≤ 127) :
    decimalValue (ds.map Char.toUInt8) = NSString.digitsValue ds := by
  rw [decimalValue, List.foldl_map, NSString.digitsValue]
  apply List.foldl_ext
  intro n d hd
  rw [NSString.toNat_toUInt8 (h d hd)]
  rfl

/-- The digits of a number, as bytes. -/
theorem utf8_repr (n : Nat) : NSString.utf8 n.repr = (Nat.toDigits 10 n).map Char.toUInt8 := by
  rw [NSString.utf8_ascii, Nat.toList_repr]
  intro c hc
  have hrange := NSString.toNat_of_isDigit (NSString.isDigit_of_mem_repr hc)
  omega

theorem isDecimal_of_mem_repr {n : Nat} {c : UInt8} (h : c ∈ NSString.utf8 n.repr) :
    isDecimal c = true := by
  rw [utf8_repr] at h
  obtain ⟨d, hd, rfl⟩ := List.mem_map.mp h
  have hrange := NSString.toNat_of_isDigit (NSString.isDigit_of_mem_repr (Nat.toList_repr ▸ hd))
  rw [isDecimal, NSString.toNat_toUInt8 (by omega), decide_eq_true_eq]
  exact hrange

theorem strtol_repr {n : Nat} (hn : n < 2 ^ 63) {c : UInt8} (hc : isDecimal c = false)
    (rest : CString) :
    strtol (NSString.utf8 n.repr ++ c :: rest) = ((n : Int), (NSString.utf8 n.repr).length) := by
  have hdecimal : ∀ b ∈ NSString.utf8 n.repr, isDecimal b = true :=
    fun b hb => isDecimal_of_mem_repr hb
  have hvalue : decimalValue (NSString.utf8 n.repr) = n := by
    rw [utf8_repr, decimalValue_map, NSString.digitsValue_toDigits]
    intro d hd
    have hrange := NSString.toNat_of_isDigit (NSString.isDigit_of_mem_repr (Nat.toList_repr ▸ hd))
    omega
  have hdigits : (NSString.utf8 n.repr ++ c :: rest).takeWhile isDecimal = NSString.utf8 n.repr := by
    rw [List.takeWhile_append_of_pos hdecimal, List.takeWhile_cons, if_neg (by simp [hc]),
      List.append_nil]
  obtain ⟨b, bs, hbs⟩ := List.exists_cons_of_ne_nil
    (mt NSString.utf8_eq_nil.mp (Nat.repr_ne_empty (n := n)))
  have hb : 48 ≤ b.toNat ∧ b.toNat ≤ 57 := by
    simpa [isDecimal] using hdecimal b (hbs ▸ List.mem_cons_self)
  have hspace : isSpace b = false := by
    by_contra hspace
    simp only [isSpace, decide_eq_false_iff_not, not_not, List.mem_cons, List.not_mem_nil,
      or_false] at hspace
    rcases hspace with rfl | rfl | rfl | rfl | rfl | rfl <;> exact absurd hb (by decide)
  have hminus : b ≠ '-'.toUInt8 := by
    rintro rfl
    exact absurd hb (by decide)
  have hplus : b ≠ '+'.toUInt8 := by
    rintro rfl
    exact absurd hb (by decide)
  rw [hbs] at hdigits hvalue ⊢
  simp only [List.cons_append] at hdigits ⊢
  simp [strtol, hspace, hminus, hplus, hdigits, hvalue]
  omega

/-- The path of a track leads to the properties of this track. -/
theorem readList_item (tracks : List TrackEntry) {n : Nat} (hn : n < 2 ^ 63) (key : CString) :
    readList tracks (NSString.utf8 n.repr ++ '/'.toUInt8 :: key) =
      tracks[n]?.bind fun t => t.property key := by
  have hcount : NSString.utf8 n.repr ++ '/'.toUInt8 :: key ≠ NSString.utf8 "count" := by
    intro heq
    have hmem : '/'.toUInt8 ∈ NSString.utf8 "count" := heq ▸ by simp
    exact absurd hmem (by decide)
  have hnone : (NSString.utf8 n.repr).findIdx? (· = '/'.toUInt8) = none := by
    rw [List.findIdx?_eq_none_iff]
    intro c hc
    have hdecimal := isDecimal_of_mem_repr hc
    rw [decide_eq_false_iff_not]
    rintro rfl
    exact absurd hdecimal (by decide)
  have hnext : (NSString.utf8 n.repr ++ '/'.toUInt8 :: key).findIdx? (· = '/'.toUInt8) =
      some (NSString.utf8 n.repr).length := by
    rw [List.findIdx?_append, hnone, List.findIdx?_cons]
    simp
  have hslash : isDecimal '/'.toUInt8 = false := by decide
  simp only [readList, if_neg hcount, hnext, strtol_repr hn hslash, ne_eq, not_true, and_false,
    if_false, Option.bind_some, Int.toNat_natCast]
  split
  · rename_i h
    have hlength : tracks.length ≤ n := by omega
    rw [List.getElem?_eq_none hlength, Option.bind_none]
  · have hdrop : (NSString.utf8 n.repr ++ '/'.toUInt8 :: key).drop
        ((NSString.utf8 n.repr).length + 1) = key := by
      rw [List.drop_append]
      simp
    rw [hdrop]

theorem getTrackList_count (tracks : List TrackEntry) :
    getTrackList tracks (NSString.utf8String "track-list/count") =
      some (printInt tracks.length) := by
  have hname : NSString.utf8String "track-list/count" = trackListPath ++ NSString.utf8 "count" := by
    decide
  rw [getTrackList, hname, if_pos (List.prefix_append _ _), List.drop_left, readList, if_pos rfl]

theorem getTrackList_item (tracks : List TrackEntry) {n : Nat} (hn : n < 2 ^ 63) {key : NSString}
    (hkey : '\x00' ∉ key.toList) :
    getTrackList tracks (NSString.utf8String s!"track-list/{n}/{key}") =
      tracks[n]?.bind fun t => t.property key.utf8 := by
  have hslash : NSString.utf8 "/" = ['/'.toUInt8] := by decide
  have hprint : s!"track-list/{n}/{key}" = "track-list/" ++ n.repr ++ "/" ++ key := by
    simp [toString]
  have hdigits : '\x00' ∉ Nat.toDigits 10 n := by
    intro hmem
    exact absurd (NSString.isDigit_of_mem_repr (Nat.toList_repr ▸ hmem)) (by decide)
  have hname : NSString.utf8String s!"track-list/{n}/{key}" =
      trackListPath ++ (NSString.utf8 n.repr ++ '/'.toUInt8 :: key.utf8) := by
    have hnul : '\x00' ∉ ("track-list/" ++ n.repr ++ "/" ++ key).toList := by
      simp [hdigits, hkey]
    rw [hprint, NSString.utf8String_eq_utf8 hnul]
    simp [trackListPath, hslash]
  rw [getTrackList, hname, if_pos (List.prefix_append _ _), List.drop_left, readList_item tracks hn]

end Mpv
