-- SUMMARY: What `initTrackList` makes of mpv's track list, where freed memory may be reused at any time.
import KitPlayerCore.Core.Status
import KitPlayerCore.Mpv.TrackList

/-!
# The tracks of an item

`getParameterStr:` frees the string that mpv allocated and copies it afterwards. In
between, another thread may have been given the block.
-/

namespace Core

open Mpv Transition

/-! ## The heap -/

/-- A block of the heap, with the string that mpv wrote into it. -/
inductive Cell where
  | allocated (str : CString)
  | released (str : CString)
  deriving DecidableEq, Repr

def Cell.release : Cell → Cell
  | .allocated str => .released str
  | .released str => .released str

/-- The object, and the heap at whose blocks the pointers of mpv point. -/
structure Reader where
  obj : Object
  tracks : List TrackEntry
  heap : List Cell := []
  /-- How often a released block was read. -/
  reads : Nat := 0

/-- What the released block holds when it is read, from the number of such reads
    before and from what mpv wrote. -/
abbrev Reuse := Nat → CString → CString

/-- No other thread is given the block. -/
def Reuse.none : Reuse := fun _ str => str

/-- The effect of an operation, where `track-list` does not change. -/
def Reader.perform (r : Reuse) : (op : Op) → Reader → op.Res × Reader
  | .call (some _) (.getProperty name .string), s =>
    match getTrackList s.tracks name with
    | some str => (.ok s.heap.length, { s with heap := s.heap ++ [.allocated str] })
    -- MPV_ERROR_PROPERTY_UNAVAILABLE
    | .none => (.error (-10), s)
  | .free p, s => ((), { s with heap := s.heap.modify p Cell.release })
  | .initWithCString p, s =>
    match s.heap[p]? with
    | some (.allocated str) => (NSString.initWithCString str, s)
    | some (.released str) =>
      (NSString.initWithCString (r s.reads str), { s with reads := s.reads + 1 })
    | .none => (.none, s)
  | op, s =>
    ((Record.perform op ⟨s.obj, []⟩).1, { s with obj := (Record.perform op ⟨s.obj, []⟩).2.obj })

section perform

variable (r : Reuse) (s : Reader)

@[simp] theorem perform_get (v : Ivar) :
    Reader.perform r (.get v) s = (s.obj.get v, s) := rfl

@[simp] theorem perform_set (v : Ivar) (x : v.type) :
    Reader.perform r (.set v x) s = ((), { s with obj := s.obj.set v x }) := rfl

@[simp] theorem perform_lock (l : Lock) : Reader.perform r (.lock l) s = ((), s) := rfl

@[simp] theorem perform_unlock (l : Lock) : Reader.perform r (.unlock l) s = ((), s) := rfl

@[simp] theorem perform_free (p : Pointer) :
    Reader.perform r (.free p) s = ((), { s with heap := s.heap.modify p Cell.release }) := rfl

end perform

/-! ## What is expected -/

/-- The string that mpv reports, empty where it reports none. -/
def text (str : Option CString) : NSString := (str.bind NSString.initWithCString).getD ""

/-- The dictionary that stands for the track. -/
def dictionary (t : TrackEntry) : Track where
  id := text (t.property (NSString.utf8 "id"))
  type := text (t.property (NSString.utf8 "type"))
  title := text (t.property (NSString.utf8 "title"))
  lang := text (t.property (NSString.utf8 "lang"))
  codec := text (t.property (NSString.utf8 "codec"))
  audioChannelCount := text (t.property (NSString.utf8 "demux-channel-count"))
  audioSampleRate := text (t.property (NSString.utf8 "demux-samplerate"))

/-- The dictionaries of the tracks of one type, in their order. -/
def dictionaries (type : StreamType) (tracks : List TrackEntry) : List Track :=
  (tracks.filter (·.type = type)).map dictionary

/-- The strings that the file gives for the track are UTF-8. -/
def ValidStrings (t : TrackEntry) : Prop :=
  ∀ str ∈ t.title.toList ++ t.lang.toList ++ t.codec.toList, NSString.initWithCString str ≠ none

/-- An item is ready, and its tracks were not asked for so far. -/
structure Loaded (o : Object) : Prop where
  mpv : o.mpv ≠ none
  isLoaded : o.isLoaded = true
  isStopEvent : o.isStopEvent = false
  isInitTrack : o.isInitTrack = false
  subArray : o.subArray = []
  audioArray : o.audioArray = []

/-- `initTrackList` does not raise, and the arrays are those of the tracks. -/
def Enumerates (r : Reuse) (o : Object) (tracks : List TrackEntry) : Prop :=
  (initTrackList.run (Reader.perform r) { obj := o, tracks := tracks }).1 = true ∧
    (initTrackList.run (Reader.perform r) { obj := o, tracks := tracks }).2.obj.audioArray =
      dictionaries .audio tracks ∧
    (initTrackList.run (Reader.perform r) { obj := o, tracks := tracks }).2.obj.subArray =
      dictionaries .sub tracks

/-- `START_FILE` and `PLAYBACK_RESTART` lead to such a state. -/
theorem loaded_after_playbackRestart (s : Record) (hmpv : s.obj.mpv ≠ none) :
    Loaded ((s.after (handleEvent ⟨.startFile, .none⟩)).after
      (handleEvent ⟨.playbackRestart, .none⟩)).obj := by
  rw [after_startFile s rfl, after_playbackRestart _ rfl]
  exact ⟨hmpv, rfl, rfl, rfl, rfl, rfl⟩

/-! ## Reading a property -/

/-- What `getParameterStr:` makes of what mpv reports. -/
def Reuse.value (r : Reuse) (reads : Nat) : Option CString → Option NSString
  | .none => some ""
  | some str => NSString.initWithCString (r reads str)

/-- The heap after the property was read. -/
def Reader.read (s : Reader) : Option CString → Reader
  | none => s
  | some str => { s with heap := s.heap ++ [.released str], reads := s.reads + 1 }

/-- The getters go on to mpv. -/
structure Readable (o : Object) : Prop where
  mpv : o.mpv ≠ none
  isLoaded : o.isLoaded = true
  isStopEvent : o.isStopEvent = false

variable {r : Reuse} {s : Reader}

@[simp] theorem read_obj (str : Option CString) : (s.read str).obj = s.obj := by cases str <;> rfl

@[simp] theorem read_tracks (str : Option CString) : (s.read str).tracks = s.tracks := by
  cases str <;> rfl

theorem reads_le_read (str : Option CString) : s.reads ≤ (s.read str).reads := by
  cases str
  · exact Nat.le_refl _
  · exact Nat.le_succ _

theorem perform_getProperty_none {h : Option Handle} (hh : h ≠ none) {name : CString}
    (hstr : getTrackList s.tracks name = none) :
    Reader.perform r (.call h (.getProperty name .string)) s =
      ((.error (-10) : Except Int Pointer), s) := by
  obtain ⟨h, rfl⟩ := Option.ne_none_iff_exists'.mp hh
  simp only [Reader.perform, hstr]

theorem perform_getProperty_some {h : Option Handle} (hh : h ≠ none) {name str : CString}
    (hstr : getTrackList s.tracks name = some str) :
    Reader.perform r (.call h (.getProperty name .string)) s =
      ((.ok s.heap.length : Except Int Pointer),
        { s with heap := s.heap ++ [.allocated str] }) := by
  obtain ⟨h, rfl⟩ := Option.ne_none_iff_exists'.mp hh
  simp only [Reader.perform, hstr]

theorem perform_initWithCString_released {p : Pointer} {str : CString}
    (hp : s.heap[p]? = some (.released str)) :
    Reader.perform r (.initWithCString p) s =
      (NSString.initWithCString (r s.reads str), { s with reads := s.reads + 1 }) := by
  simp only [Reader.perform, hp]

theorem release_last (heap : List Cell) (str : CString) :
    (heap ++ [Cell.allocated str]).modify heap.length Cell.release = heap ++ [.released str] := by
  induction heap with
  | nil => rfl
  | cons cell heap ih => simpa using ih

/-- The string is allocated, released, and read after that. -/
theorem run_getParameterStr (h : Readable s.obj) (key : NSString) :
    (getParameterStr key).run (Reader.perform r) s =
      (r.value s.reads (getTrackList s.tracks key.utf8String),
        s.read (getTrackList s.tracks key.utf8String)) := by
  cases hstr : getTrackList s.tracks key.utf8String with
  | none =>
    have hcall := perform_getProperty_none (r := r) h.mpv hstr
    simp [getParameterStr, Object.get, h.mpv, h.isLoaded, h.isStopEvent, hcall, Reuse.value,
      Reader.read]
  | some str =>
    have hcall := perform_getProperty_some (r := r) h.mpv hstr
    have hread : Reader.perform r (.initWithCString s.heap.length)
        { s with heap := s.heap ++ [.released str] } =
        (NSString.initWithCString (r s.reads str), s.read (some str)) :=
      perform_initWithCString_released (by simp)
    simp [getParameterStr, Object.get, h.mpv, h.isLoaded, h.isStopEvent, hcall, Reuse.value,
      release_last, hread]

/-- What mpv reports for the `i`-th track, if there is one. -/
def Reader.reported (s : Reader) (i : Nat) (name : NSString) : Option CString :=
  s.tracks[i]?.bind fun t => t.property name.utf8

theorem run_trackParameter (h : Readable s.obj) {i : Nat} (hi : i < 2 ^ 63) {name : NSString}
    (hname : '\x00' ∉ name.toList) :
    (trackParameter i name).run (Reader.perform r) s =
      (r.value s.reads (s.reported i name), s.read (s.reported i name)) := by
  rw [trackParameter, run_getParameterStr h, getTrackList_item _ hi hname, Reader.reported]

theorem run_unlessNil (p : Core (Option NSString)) (f : NSString → Core Bool) {str : NSString}
    (hp : (p.run (Reader.perform r) s).1 = some str) :
    (unlessNil p f).run (Reader.perform r) s =
      (f str).run (Reader.perform r) (p.run (Reader.perform r) s).2 := by
  rw [unlessNil, Program.run_bind, hp]

/-- What `initTrackList` does with a dictionary, as a function. -/
def Object.addTrack (o : Object) (dic : Track) : Object :=
  if dic.type = "audio" then { o with audioArray := o.audioArray ++ [dic] }
  else if dic.type = "sub" then { o with subArray := o.subArray ++ [dic] }
  else o

theorem run_addTrack (dic : Track) :
    (addTrack dic).run (Reader.perform r) s = ((), { s with obj := s.obj.addTrack dic }) := by
  unfold addTrack Object.addTrack
  split
  · simp [Object.get, Object.set]
  · split <;> simp [Object.get, Object.set]

/-- The seven values that are read for a track are `values`. -/
structure Reads (r : Reuse) (s : Reader) (i : Nat) (dic : Track) : Prop where
  id : ∀ n, s.reads ≤ n → r.value n (s.reported i "id") = some dic.id
  type : ∀ n, s.reads ≤ n → r.value n (s.reported i "type") = some dic.type
  title : ∀ n, s.reads ≤ n → r.value n (s.reported i "title") = some dic.title
  lang : ∀ n, s.reads ≤ n → r.value n (s.reported i "lang") = some dic.lang
  codec : ∀ n, s.reads ≤ n → r.value n (s.reported i "codec") = some dic.codec
  audioChannelCount : ∀ n, s.reads ≤ n →
    r.value n (s.reported i "demux-channel-count") = some dic.audioChannelCount
  audioSampleRate : ∀ n, s.reads ≤ n →
    r.value n (s.reported i "demux-samplerate") = some dic.audioSampleRate

/-- `s'` differs from `s` in the heap and the number of reads. -/
structure Further (s s' : Reader) : Prop where
  obj : s'.obj = s.obj
  tracks : s'.tracks = s.tracks
  reads : s.reads ≤ s'.reads

theorem Further.read {s s' : Reader} (h : Further s s') (str : Option CString) :
    Further s (s'.read str) :=
  ⟨(read_obj str).trans h.obj, (read_tracks str).trans h.tracks,
    h.reads.trans (reads_le_read str)⟩

theorem Further.run_unlessNil {s s' : Reader} (h : Further s s') (hs : Readable s.obj) {i : Nat}
    (hi : i < 2 ^ 63) {name str : NSString} (hname : '\x00' ∉ name.toList)
    (hvalue : ∀ n, s.reads ≤ n → r.value n (s.reported i name) = some str)
    (f : NSString → Core Bool) :
    ∃ t, Further s t ∧ (unlessNil (trackParameter i name) f).run (Reader.perform r) s' =
      (f str).run (Reader.perform r) t := by
  have hs' : Readable s'.obj := h.obj ▸ hs
  have hrun := run_trackParameter (r := r) hs' hi hname
  have hreported : s'.reported i name = s.reported i name := by simp [Reader.reported, h.tracks]
  refine ⟨_, h.read (s.reported i name), ?_⟩
  rw [Core.run_unlessNil, hrun, hreported]
  rw [hrun, hreported]
  exact hvalue _ h.reads

/-- A pass of the loop, where the values that are read are known. -/
theorem run_readTrack (hs : Readable s.obj) {i : Nat} (hi : i < 2 ^ 63) {dic : Track}
    (hreads : Reads r s i dic) :
    ∃ t, Further s t ∧ (readTrack i).run (Reader.perform r) s =
      (true, { t with obj := t.obj.addTrack dic }) := by
  unfold readTrack
  obtain ⟨t₁, h₁, hrun₁⟩ := Further.run_unlessNil ⟨rfl, rfl, le_rfl⟩ hs hi (by decide) hreads.id _
  obtain ⟨t₂, h₂, hrun₂⟩ := h₁.run_unlessNil hs hi (by decide) hreads.type _
  obtain ⟨t₃, h₃, hrun₃⟩ := h₂.run_unlessNil hs hi (by decide) hreads.title _
  obtain ⟨t₄, h₄, hrun₄⟩ := h₃.run_unlessNil hs hi (by decide) hreads.lang _
  obtain ⟨t₅, h₅, hrun₅⟩ := h₄.run_unlessNil hs hi (by decide) hreads.codec _
  obtain ⟨t₆, h₆, hrun₆⟩ := h₅.run_unlessNil hs hi (by decide) hreads.audioChannelCount _
  obtain ⟨t, h, hrun₇⟩ := h₆.run_unlessNil hs hi (by decide) hreads.audioSampleRate _
  refine ⟨t, h, ?_⟩
  rw [hrun₁, hrun₂, hrun₃, hrun₄, hrun₅, hrun₆, hrun₇, Program.run_bind, run_addTrack]
  rfl

/-! ## The loop -/

theorem Reads.later {s s' : Reader} {i : Nat} {dic : Track} (h : Reads r s i dic)
    (htracks : s'.tracks = s.tracks) (hreads : s.reads ≤ s'.reads) : Reads r s' i dic := by
  have hreported (name : NSString) : s'.reported i name = s.reported i name := by
    simp [Reader.reported, htracks]
  constructor <;> intro n hn <;> rw [hreported]
  · exact h.id n (hreads.trans hn)
  · exact h.type n (hreads.trans hn)
  · exact h.title n (hreads.trans hn)
  · exact h.lang n (hreads.trans hn)
  · exact h.codec n (hreads.trans hn)
  · exact h.audioChannelCount n (hreads.trans hn)
  · exact h.audioSampleRate n (hreads.trans hn)

theorem Readable.addTrack {o : Object} (h : Readable o) (dic : Track) :
    Readable (o.addTrack dic) := by
  unfold Object.addTrack
  split
  · exact ⟨h.mpv, h.isLoaded, h.isStopEvent⟩
  · split <;> exact ⟨h.mpv, h.isLoaded, h.isStopEvent⟩

/-- The loop over `n` tracks adds the dictionary of each, in their order. -/
theorem run_readTracks {dics : Nat → Track} {i n : Nat} (hs : Readable s.obj)
    (hn : i + n ≤ 2 ^ 63) (hreads : ∀ j, i ≤ j → j < i + n → Reads r s j (dics j)) :
    ∃ t : Reader, (readTracks i n).run (Reader.perform r) s = (true, t) ∧
      t.obj = ((List.range' i n).map dics).foldl Object.addTrack s.obj := by
  induction n generalizing i s with
  | zero => exact ⟨s, rfl, rfl⟩
  | succ n ih =>
    obtain ⟨t, ht, hrun⟩ := run_readTrack hs (by omega) (hreads i le_rfl (by omega))
    have hnext : ∀ j, i + 1 ≤ j → j < i + 1 + n →
        Reads r { t with obj := t.obj.addTrack (dics i) } j (dics j) :=
      fun j hle hlt => (hreads j (by omega) (by omega)).later ht.tracks ht.reads
    obtain ⟨t', hrun', hobj⟩ := ih (s := { t with obj := t.obj.addTrack (dics i) })
      ((ht.obj ▸ hs).addTrack _) (by omega) hnext
    refine ⟨t', ?_, ?_⟩
    · rw [readTracks, Program.run_bind, hrun]
      exact hrun'
    · rw [hobj, ht.obj, List.range'_succ, List.map_cons, List.foldl_cons]

theorem audioArray_addTracks (o : Object) (dics : List Track) :
    (dics.foldl Object.addTrack o).audioArray =
      o.audioArray ++ dics.filter (·.type = "audio") := by
  induction dics generalizing o with
  | nil => simp
  | cons dic dics ih =>
    rw [List.foldl_cons, ih, Object.addTrack]
    by_cases ha : dic.type = "audio"
    · simp [ha]
    · by_cases hs : dic.type = "sub" <;> simp [ha, hs]

theorem subArray_addTracks (o : Object) (dics : List Track) :
    (dics.foldl Object.addTrack o).subArray = o.subArray ++ dics.filter (·.type = "sub") := by
  induction dics generalizing o with
  | nil => simp
  | cons dic dics ih =>
    rw [List.foldl_cons, ih, Object.addTrack]
    by_cases ha : dic.type = "audio"
    · simp [ha]
    · by_cases hs : dic.type = "sub" <;> simp [ha, hs]

/-! ## The method -/

/-- The number of tracks that the method sees. -/
def seenCount (r : Reuse) (tracks : List TrackEntry) : Nat :=
  (((r.value 0 (some (printInt tracks.length))).map NSString.intValue).getD 0).toNat

/-- The object once the flag is set. -/
def Reader.claimed (s : Reader) : Reader := { s with obj := { s.obj with isInitTrack := true } }

theorem claimed_readable (hs : Loaded s.obj) : Readable s.claimed.obj :=
  ⟨hs.mpv, hs.isLoaded, hs.isStopEvent⟩

/-- The method sets the flag, reads the count, and goes into the loop. -/
theorem run_initTrackList_loop (hs : Loaded s.obj) {n : Nat}
    (hn : ((((r.value s.reads (some (printInt s.tracks.length))).map
      NSString.intValue).getD 0).toNat) = n) :
    initTrackList.run (Reader.perform r) s =
      (readTracks 0 n).run (Reader.perform r)
        (s.claimed.read (some (printInt s.tracks.length))) := by
  have hcount : (getParameterStr "track-list/count").run (Reader.perform r) s.claimed =
      (r.value s.reads (some (printInt s.tracks.length)),
        s.claimed.read (some (printInt s.tracks.length))) := by
    rw [run_getParameterStr (claimed_readable hs), getTrackList_count]
    rfl
  have hinit : initTrackList.run (Reader.perform r) s =
      (readTracks 0 ((((getParameterStr "track-list/count").run (Reader.perform r) s.claimed).1.map
        NSString.intValue).getD 0).toNat).run (Reader.perform r)
        ((getParameterStr "track-list/count").run (Reader.perform r) s.claimed).2 := by
    simp [initTrackList, intGetter, Object.get, Object.set, hs.isInitTrack, Reader.claimed]
  rw [hinit, hcount, hn]

/-- The arrays hold what was seen of the tracks, in their order. -/
theorem run_initTrackList (hs : Loaded s.obj) {n : Nat} {dics : Nat → Track}
    (hn : ((((r.value s.reads (some (printInt s.tracks.length))).map
      NSString.intValue).getD 0).toNat) = n)
    (hreads : ∀ (t : Reader) (j : Nat), t.tracks = s.tracks → s.reads + 1 ≤ t.reads →
      j < n → Reads r t j (dics j)) :
    ∃ t : Reader, initTrackList.run (Reader.perform r) s = (true, t) ∧
      t.obj.audioArray = ((List.range n).map dics).filter (·.type = "audio") ∧
      t.obj.subArray = ((List.range n).map dics).filter (·.type = "sub") := by
  have hbound : 0 + n ≤ 2 ^ 63 := by
    rw [← hn]
    cases r.value s.reads (some (printInt s.tracks.length)) with
    | none => simp
    | some str =>
      have hlt := NSString.intValue_lt str
      simp only [Option.map_some, Option.getD_some]
      omega
  have hloop : ∀ j, 0 ≤ j → j < 0 + n →
      Reads r (s.claimed.read (some (printInt s.tracks.length))) j (dics j) :=
    fun j _ hlt => hreads _ j rfl (by simp [Reader.read, Reader.claimed]) (by omega)
  have hreadable : Readable (s.claimed.read (some (printInt s.tracks.length))).obj :=
    claimed_readable hs
  obtain ⟨t, hrun, hobj⟩ := run_readTracks hreadable hbound hloop
  refine ⟨t, (run_initTrackList_loop hs hn).trans hrun, ?_, ?_⟩
  · rw [hobj, audioArray_addTracks, ← List.range_eq_range']
    simp [Reader.read, Reader.claimed, hs.audioArray]
  · rw [hobj, subArray_addTracks, ← List.range_eq_range']
    simp [Reader.read, Reader.claimed, hs.subArray]

/-- The arrays hold what is seen of the tracks from the first read on. -/
theorem run_initTrackList_seen {o : Object} (ho : Loaded o) {tracks : List TrackEntry}
    {dics : Nat → Track}
    (hreads : ∀ (s : Reader) (j : Nat), s.tracks = tracks → 1 ≤ s.reads →
      j < seenCount r tracks → Reads r s j (dics j)) :
    ∃ t : Reader,
      initTrackList.run (Reader.perform r) { obj := o, tracks := tracks } = (true, t) ∧
      t.obj.audioArray =
        ((List.range (seenCount r tracks)).map dics).filter (·.type = "audio") ∧
      t.obj.subArray =
        ((List.range (seenCount r tracks)).map dics).filter (·.type = "sub") :=
  run_initTrackList (s := { obj := o, tracks := tracks }) ho rfl hreads

/-! ## What comes out of it -/

theorem property_type (t : TrackEntry) :
    t.property (NSString.utf8 "type") = some (NSString.utf8 t.type.name) :=
  TrackEntry.property_of_mem (by simp [TrackEntry.properties])

theorem dictionary_type (t : TrackEntry) : (dictionary t).type = t.type.name := by
  simp [dictionary, property_type, text]

/-- The loop sorts the dictionaries by their type. -/
theorem dictionaries_eq_filter (type : StreamType) (tracks : List TrackEntry) :
    dictionaries type tracks = (tracks.map dictionary).filter (·.type = type.name) := by
  have hname (t : TrackEntry) : t.type.name = type.name ↔ t.type = type := by
    cases t.type <;> cases type <;> decide
  rw [dictionaries, List.filter_map]
  congr 2
  funext t
  simp [dictionary_type, hname]

/-- A list without tracks is enumerated whatever becomes of the count. -/
theorem enumerates_nil {o : Object} (ho : Loaded o) (r : Reuse) : Enumerates r o [] := by
  have hreads (s : Reader) (j : Nat) (hs : s.tracks = []) (_ : 1 ≤ s.reads)
      (_ : j < seenCount r []) : Reads r s j ⟨"", "", "", "", "", "", ""⟩ := by
    have hnone (name : NSString) : s.reported j name = none := by simp [Reader.reported, hs]
    constructor <;> intro n _ <;> rw [hnone] <;> rfl
  obtain ⟨t, hrun, haudio, hsub⟩ := run_initTrackList_seen ho hreads
  rw [Enumerates, hrun]
  exact ⟨rfl, by simp [haudio, dictionaries], by simp [hsub, dictionaries]⟩

/-- A string that is UTF-8 is read as it is while no released block is reused. -/
theorem value_none {str : Option CString}
    (h : ∀ bytes ∈ str, NSString.initWithCString bytes ≠ none) (n : Nat) :
    Reuse.none.value n str = some (text str) := by
  cases str with
  | none => rfl
  | some bytes =>
    obtain ⟨s, hs⟩ := Option.ne_none_iff_exists'.mp (h bytes rfl)
    simp [Reuse.value, Reuse.none, text, hs]

theorem initWithCString_property {t : TrackEntry} (ht : ValidStrings t) {key bytes : CString}
    (h : t.property key = some bytes) : NSString.initWithCString bytes ≠ none := by
  obtain ⟨p, hfind, hp⟩ := Option.bind_eq_some_iff.mp h
  have hmem := List.mem_of_find?_eq_some hfind
  have hprint (s : NSString) (hs : s.utf8 = bytes) : NSString.initWithCString bytes ≠ none := by
    rw [← hs, NSString.initWithCString_utf8]
    nofun
  simp only [TrackEntry.properties, List.mem_cons, List.not_mem_nil, or_false] at hmem
  rcases hmem with rfl | rfl | rfl | rfl | rfl | rfl | rfl
  · exact hprint _ (Option.some.inj hp)
  · exact hprint _ (Option.some.inj hp)
  · exact ht bytes (by simp [show t.title = some bytes from hp])
  · exact ht bytes (by simp [show t.lang = some bytes from hp])
  · exact ht bytes (by simp [show t.codec = some bytes from hp])
  · simp only [Option.ite_none_left_eq_some, Option.some.injEq] at hp
    exact hprint _ hp.2
  · simp only [Option.ite_none_left_eq_some, Option.some.injEq] at hp
    exact hprint _ hp.2

/-- What is read for a track whose strings are UTF-8, while no released block is reused. -/
theorem reads_none {t : TrackEntry} {i : Nat} (ht : s.tracks[i]? = some t) (hvalid : ValidStrings t) :
    Reads .none s i (dictionary t) := by
  have hreported (name : NSString) : s.reported i name = t.property name.utf8 := by
    simp [Reader.reported, ht]
  have hbytes (key bytes : CString) (hkey : bytes ∈ t.property key) :
      NSString.initWithCString bytes ≠ none :=
    initWithCString_property hvalid hkey
  constructor <;> intro n _ <;> rw [hreported] <;> exact value_none (hbytes _) n

/-- While no released block is reused, the arrays are those of the tracks. -/
theorem run_initTrackList_none (hs : Loaded s.obj) (hvalid : ∀ t ∈ s.tracks, ValidStrings t)
    (hlength : s.tracks.length < 2 ^ 31) :
    ∃ t : Reader, initTrackList.run (Reader.perform .none) s = (true, t) ∧
      t.obj.audioArray = dictionaries .audio s.tracks ∧
      t.obj.subArray = dictionaries .sub s.tracks := by
  have hcount : ((((Reuse.none.value s.reads (some (printInt s.tracks.length))).map
      NSString.intValue).getD 0).toNat) = s.tracks.length := by
    have hprint : printInt s.tracks.length = NSString.utf8 s.tracks.length.repr := rfl
    simp [Reuse.value, Reuse.none, hprint, NSString.intValue_repr hlength]
  let dics (j : Nat) : Track := (s.tracks[j]?.map dictionary).getD ⟨"", "", "", "", "", "", ""⟩
  have hreads (t : Reader) (j : Nat) (ht : t.tracks = s.tracks) (_ : s.reads + 1 ≤ t.reads)
      (hj : j < s.tracks.length) : Reads .none t j (dics j) := by
    have hentry : t.tracks[j]? = some s.tracks[j] := by simp [ht, hj]
    have hdic : dics j = dictionary s.tracks[j] := by simp [dics, hj]
    rw [hdic]
    exact reads_none hentry (hvalid _ (List.getElem_mem hj))
  have hmap : (List.range s.tracks.length).map dics = s.tracks.map dictionary := by
    apply List.ext_getElem
    · simp
    · intro j hj _
      simp at hj
      simp [dics, hj]
  obtain ⟨t, hrun, haudio, hsub⟩ := run_initTrackList hs hcount hreads
  rw [hmap] at haudio hsub
  exact ⟨t, hrun, haudio.trans (dictionaries_eq_filter .audio s.tracks).symm,
    hsub.trans (dictionaries_eq_filter .sub s.tracks).symm⟩

/-- While no released block is reused, the tracks are enumerated. -/
theorem enumerates_of_none {o : Object} (ho : Loaded o) {tracks : List TrackEntry}
    (hvalid : ∀ t ∈ tracks, ValidStrings t) (hlength : tracks.length < 2 ^ 31) :
    Enumerates .none o tracks := by
  obtain ⟨t, hrun, haudio, hsub⟩ :=
    run_initTrackList_none (s := { obj := o, tracks := tracks }) ho hvalid hlength
  rw [Enumerates, hrun]
  exact ⟨rfl, haudio, hsub⟩

/-- The first read finds `count`, and every other one `str`. -/
def Reuse.always (count str : NSString) : Reuse
  | 0, _ => count.utf8
  | _ + 1, _ => str.utf8

theorem seenCount_always (count str : NSString) (tracks : List TrackEntry) :
    seenCount (.always count str) tracks = count.intValue.toNat := by
  simp [seenCount, Reuse.value, Reuse.always]

theorem value_always (count str : NSString) {n : Nat} (hn : 1 ≤ n) (bytes : Option CString) :
    (Reuse.always count str).value n bytes = some (if bytes.isSome then str else "") := by
  obtain ⟨n, rfl⟩ := Nat.exists_eq_add_of_le' hn
  cases bytes <;> simp [Reuse.value, Reuse.always]

/-- A track that is neither audio nor a subtitle is taken for audio. -/
theorem not_enumerates_audio {o : Object} (ho : Loaded o) {t : TrackEntry}
    {ts : List TrackEntry} (hnone : dictionaries .audio (t :: ts) = []) :
    ¬ Enumerates (.always "1" "audio") o (t :: ts) := by
  let seen (name : NSString) : NSString :=
    if (t.property name.utf8).isSome then "audio" else ""
  have hone : (NSString.intValue "1").toNat = 1 := by decide
  have hreads (s : Reader) (j : Nat) (hs : s.tracks = t :: ts) (hread : 1 ≤ s.reads)
      (hj : j < seenCount (.always "1" "audio") (t :: ts)) :
      Reads (.always "1" "audio") s j ⟨seen "id", seen "type", seen "title", seen "lang",
        seen "codec", seen "demux-channel-count", seen "demux-samplerate"⟩ := by
    rw [seenCount_always, hone] at hj
    obtain rfl : j = 0 := by omega
    constructor <;> intro n hn <;> rw [value_always _ _ (hread.trans hn)] <;>
      simp [Reader.reported, hs, seen]
  obtain ⟨u, hrun, haudio, -⟩ := run_initTrackList_seen ho hreads
  intro henum
  have heq := henum.2.1
  rw [hrun, haudio, hnone, seenCount_always, hone] at heq
  simp [seen, property_type] at heq

/-- A track that is audio or a subtitle is lost. -/
theorem not_enumerates_zero {o : Object} (ho : Loaded o) {tracks : List TrackEntry}
    (hsome : dictionaries .audio tracks ≠ [] ∨ dictionaries .sub tracks ≠ []) :
    ¬ Enumerates (.always "0" "") o tracks := by
  have hzero : (NSString.intValue "0").toNat = 0 := by decide
  have hreads (s : Reader) (j : Nat) (_ : s.tracks = tracks) (_ : 1 ≤ s.reads)
      (hj : j < seenCount (.always "0" "") tracks) :
      Reads (.always "0" "") s j ⟨"", "", "", "", "", "", ""⟩ := by
    rw [seenCount_always, hzero] at hj
    exact absurd hj (Nat.not_lt_zero j)
  obtain ⟨u, hrun, haudio, hsub⟩ := run_initTrackList_seen ho hreads
  intro henum
  have heq := henum.2
  rw [hrun, haudio, hsub, seenCount_always, hzero] at heq
  exact hsome.elim (· heq.1.symm) (· heq.2.symm)

theorem exists_not_enumerates {o : Object} (ho : Loaded o) {tracks : List TrackEntry}
    (hne : tracks ≠ []) : ∃ r, ¬ Enumerates r o tracks := by
  obtain ⟨t, ts, rfl⟩ := List.exists_cons_of_ne_nil hne
  by_cases hnone : dictionaries .audio (t :: ts) = []
  · exact ⟨_, not_enumerates_audio ho hnone⟩
  · exact ⟨_, not_enumerates_zero ho (.inl hnone)⟩

/-- Whatever is put into released blocks, the tracks are enumerated: exactly if there
    are none. -/
theorem enumerates_iff_nil {o : Object} (ho : Loaded o) (tracks : List TrackEntry) :
    (∀ r, Enumerates r o tracks) ↔ tracks = [] := by
  constructor
  · intro hall
    by_contra hne
    obtain ⟨r, hr⟩ := exists_not_enumerates ho hne
    exact hr (hall r)
  · rintro rfl
    exact enumerates_nil ho

/-- An object right after the item became ready. -/
def readyObject : Object := { mpv := some 1, isLoaded := true }

theorem loaded_readyObject : Loaded readyObject := ⟨nofun, rfl, rfl, rfl, rfl, rfl⟩

/-- An item without tracks. -/
theorem enumerates_nil_of_reuse : Enumerates (.always "2" "audio") readyObject [] :=
  (enumerates_iff_nil loaded_readyObject []).mpr rfl _

/-- The type of the only track is read from a block that another thread was given. -/
theorem not_enumerates_video :
    ¬ ∀ (r : Reuse) (o : Object) (tracks : List TrackEntry), Loaded o →
      (∀ t ∈ tracks, ValidStrings t) → Enumerates r o tracks := by
  intro h
  have henum := h (.always "1" "audio") readyObject [{ userTid := 1, type := .video }]
    loaded_readyObject (by simp [ValidStrings])
  exact not_enumerates_audio loaded_readyObject rfl henum

end Core
