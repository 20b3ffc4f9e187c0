-- SUMMARY: What `initTrackList` leaves behind where a string of the file is not UTF-8.
import KitPlayerCore.Core.Tracks

/-!
# Malformed metadata

mpv passes the strings of a file on as they are, and `initWithCString:encoding:` answers
`nil` for bytes that are not UTF-8. `getParameterStr:` returns the `nil`, and
`setObject:forKey:` raises on it. By then `isInitTrack` is set, and the tracks in front are
in the arrays. No released block is reused here.
-/

namespace Core

open Mpv Transition

instance : DecidablePred ValidStrings := fun t =>
  inferInstanceAs (Decidable (∀ str ∈ t.title.toList ++ t.lang.toList ++ t.codec.toList,
    NSString.initWithCString str ≠ none))

/-! ## What is expected -/

/-- Whether `initTrackList` returns, and what it leaves behind. -/
def initialized (o : Object) (tracks : List TrackEntry) : Bool × Reader :=
  initTrackList.run (Reader.perform .none) { obj := o, tracks := tracks }

/-- Every track of the type has its dictionary, in the order of the list. What a string that
    cannot be read stands as is left open. -/
def Lists (type : StreamType) (tracks : List TrackEntry) (dics : List Track) : Prop :=
  dics.map Track.id = (tracks.filter (·.type = type)).map fun t => toString t.userTid

/-- The method returns, every audio and sub track is in its array, and `isInitTrack` is not
    set over a part of the tracks. -/
structure Survives (o : Object) (tracks : List TrackEntry) : Prop where
  returns : (initialized o tracks).1 = true
  audio : Lists .audio tracks (initialized o tracks).2.obj.audioArray
  sub : Lists .sub tracks (initialized o tracks).2.obj.subArray
  whole : (initialized o tracks).2.obj.isInitTrack = true →
    (initialized o tracks).2.obj.audioArray.length +
        (initialized o tracks).2.obj.subArray.length =
      (tracks.filter (·.type ≠ .video)).length

/-- What the loop goes over. `intValue` is cut off at the range of `int`, as the number of
    tracks is in mpv. -/
def counted (tracks : List TrackEntry) : List TrackEntry := tracks.take (2 ^ 31 - 1)

/-- The strings of the tracks that the loop goes over are UTF-8, and it goes over all tracks
    that are listed. -/
def WellFormed (tracks : List TrackEntry) : Prop :=
  (∀ t ∈ counted tracks, ValidStrings t) ∧ ∀ t ∈ tracks.drop (2 ^ 31 - 1), t.type = .video

/-! ## A pass of the loop -/

variable {s : Reader} {i : Nat} {t : TrackEntry}

/-- The program raises, and has put nothing into the object. -/
def Stops (s : Reader) (p : Core Bool) : Prop :=
  ∀ s', Further s s' → ∃ u, Further s u ∧ p.run (Reader.perform .none) s' = (false, u)

/-- A lookup that finds `nil` raises. -/
theorem Stops.unlessNil (hs : Readable s.obj) (hi : i < 2 ^ 63) {name : NSString}
    (hname : '\x00' ∉ name.toList) {f : NSString → Core Bool}
    (hf : ∀ str, (∀ n, Reuse.none.value n (s.reported i name) = some str) → Stops s (f str)) :
    Stops s (unlessNil (trackParameter i name) f) := by
  intro s' h
  have hs' : Readable s'.obj := h.obj ▸ hs
  have hreported : s'.reported i name = s.reported i name := by simp [Reader.reported, h.tracks]
  have hsame (m n : Nat) : Reuse.none.value m (s.reported i name) =
      Reuse.none.value n (s.reported i name) := by
    cases s.reported i name <;> rfl
  have hrun := run_trackParameter (r := .none) hs' hi hname
  rw [hreported] at hrun
  cases hvalue : Reuse.none.value s'.reads (s.reported i name) with
  | none =>
    refine ⟨_, h.read (s.reported i name), ?_⟩
    rw [Core.unlessNil, Program.run_bind, hrun, hvalue]
    rfl
  | some str =>
    obtain ⟨u, hu, hstop⟩ := hf str (fun n => (hsame n _).trans hvalue) _
      (h.read (s.reported i name))
    refine ⟨u, hu, ?_⟩
    rw [Core.run_unlessNil _ _ (by rw [hrun, hvalue]), hrun]
    exact hstop

theorem property_title (t : TrackEntry) : t.property (NSString.utf8 "title") = t.title :=
  TrackEntry.property_of_mem (by simp [TrackEntry.properties])

theorem property_lang (t : TrackEntry) : t.property (NSString.utf8 "lang") = t.lang :=
  TrackEntry.property_of_mem (by simp [TrackEntry.properties])

theorem property_codec (t : TrackEntry) : t.property (NSString.utf8 "codec") = t.codec :=
  TrackEntry.property_of_mem (by simp [TrackEntry.properties])

/-- A string is read as UTF-8, or mpv does not report it. -/
theorem ne_none_of_value {str : Option CString} {value : NSString}
    (h : ∀ n, Reuse.none.value n str = some value) :
    ∀ bytes ∈ str.toList, NSString.initWithCString bytes ≠ none := by
  intro bytes hbytes hnone
  cases str with
  | none => cases hbytes
  | some bytes' =>
    obtain rfl := List.mem_singleton.mp hbytes
    have hvalue : NSString.initWithCString bytes = some value := h 0
    rw [hnone] at hvalue
    cases hvalue

/-- The pass over a track with a string that is not UTF-8. -/
theorem readTrack_stops (hs : Readable s.obj) (hi : i < 2 ^ 63) (ht : s.tracks[i]? = some t)
    (hbad : ¬ ValidStrings t) : Stops s (readTrack i) := by
  have hreported (name : NSString) : s.reported i name = t.property name.utf8 := by
    simp [Reader.reported, ht]
  refine .unlessNil hs hi (by decide) fun id _ => ?_
  refine .unlessNil hs hi (by decide) fun type _ => ?_
  refine .unlessNil hs hi (by decide) fun title htitle => ?_
  refine .unlessNil hs hi (by decide) fun lang hlang => ?_
  refine .unlessNil hs hi (by decide) fun codec hcodec => absurd ?_ hbad
  rw [hreported] at htitle hlang hcodec
  rw [property_title] at htitle
  rw [property_lang] at hlang
  rw [property_codec] at hcodec
  intro str hstr
  rcases List.mem_append.mp hstr with hstr | hstr
  · rcases List.mem_append.mp hstr with hstr | hstr
    · exact ne_none_of_value htitle str hstr
    · exact ne_none_of_value hlang str hstr
  · exact ne_none_of_value hcodec str hstr

/-! ## The loop -/

/-- The loop goes up to the first track with a string that is not UTF-8, and raises there. -/
theorem run_readTracks_valid {n : Nat} (hs : Readable s.obj) (hn : i + n ≤ 2 ^ 63)
    (hlength : i + n ≤ s.tracks.length) :
    ∃ u : Reader, (readTracks i n).run (Reader.perform .none) s =
        (((s.tracks.drop i).take n).all (decide <| ValidStrings ·), u) ∧
      u.obj = ((((s.tracks.drop i).take n).takeWhile (decide <| ValidStrings ·)).map
        dictionary).foldl Object.addTrack s.obj := by
  induction n generalizing i s with
  | zero => exact ⟨s, by simp [readTracks], by simp⟩
  | succ n ih =>
    have hi : i < s.tracks.length := by omega
    have ht : s.tracks[i]? = some s.tracks[i] := List.getElem?_eq_getElem hi
    rw [List.drop_eq_getElem_cons hi, List.take_succ_cons, List.all_cons, List.takeWhile_cons]
    by_cases hvalid : ValidStrings s.tracks[i]
    · obtain ⟨u, hu, hrun⟩ := run_readTrack hs (by omega) (reads_none ht hvalid)
      have hreadable : Readable (u.obj.addTrack (dictionary s.tracks[i])) :=
        (hu.obj ▸ hs).addTrack _
      obtain ⟨u', hrun', hobj⟩ := ih (i := i + 1)
        (s := { u with obj := u.obj.addTrack (dictionary s.tracks[i]) }) hreadable (by omega)
        (by rw [hu.tracks]; omega)
      refine ⟨u', ?_, ?_⟩
      · rw [readTracks, Program.run_bind, hrun]
        simpa [hvalid, hu.tracks] using hrun'
      · simpa [hvalid, hu.tracks, hu.obj] using hobj
    · obtain ⟨u, hu, hrun⟩ := readTrack_stops hs (by omega) ht hvalid s ⟨rfl, rfl, le_rfl⟩
      refine ⟨u, ?_, ?_⟩
      · rw [readTracks, Program.run_bind, hrun]
        simp [hvalid]
      · simp [hvalid, hu.obj]

/-- The arrays are those of the tracks in front of the first one that cannot be read, and
    the flag is set whether there is one or not. -/
theorem initialized_eq {o : Object} (ho : Loaded o) (tracks : List TrackEntry) :
    (initialized o tracks).1 = (counted tracks).all (decide <| ValidStrings ·) ∧
      (initialized o tracks).2.obj.audioArray =
        dictionaries .audio ((counted tracks).takeWhile (decide <| ValidStrings ·)) ∧
      (initialized o tracks).2.obj.subArray =
        dictionaries .sub ((counted tracks).takeWhile (decide <| ValidStrings ·)) := by
  let s : Reader := { obj := o, tracks := tracks }
  have hcount : ((((Reuse.none.value s.reads (some (printInt s.tracks.length))).map
      NSString.intValue).getD 0).toNat) = min tracks.length (2 ^ 31 - 1) := by
    have hprint : printInt s.tracks.length = NSString.utf8 tracks.length.repr := rfl
    simp only [Reuse.value, Reuse.none, hprint, NSString.initWithCString_utf8, Option.map_some,
      Option.getD_some, NSString.intValue_repr_eq_min]
    omega
  have hreadable : Readable (s.claimed.read (some (printInt s.tracks.length))).obj :=
    claimed_readable ho
  obtain ⟨u, hrun, hobj⟩ := run_readTracks_valid (i := 0) (n := min tracks.length (2 ^ 31 - 1))
    hreadable (by omega) (by simp [Reader.read, Reader.claimed, s])
  have hcounted : (((s.claimed.read (some (printInt s.tracks.length))).tracks.drop 0).take
      (min tracks.length (2 ^ 31 - 1))) = counted tracks := by
    simp [Reader.read, Reader.claimed, s, counted, Nat.min_comm]
  rw [hcounted] at hrun hobj
  have heq : initialized o tracks = ((counted tracks).all (decide <| ValidStrings ·), u) :=
    (run_initTrackList_loop (s := s) ho hcount).trans hrun
  refine ⟨congrArg Prod.fst heq, ?_, ?_⟩
  · have hempty : (s.claimed.read (some (printInt s.tracks.length))).obj.audioArray = [] :=
      ho.audioArray
    rw [heq, hobj, audioArray_addTracks, hempty, dictionaries_eq_filter]
    rfl
  · have hempty : (s.claimed.read (some (printInt s.tracks.length))).obj.subArray = [] :=
      ho.subArray
    rw [heq, hobj, subArray_addTracks, hempty, dictionaries_eq_filter]
    rfl

/-! ## What comes out of it -/

theorem text_utf8 (str : NSString) : text (some str.utf8) = str := by
  simp [text]

theorem dictionary_id (t : TrackEntry) : (dictionary t).id = toString t.userTid := by
  have hid : t.property (NSString.utf8 "id") = some (NSString.utf8 (toString t.userTid)) :=
    TrackEntry.property_of_mem (by simp [TrackEntry.properties, printInt])
  rw [dictionary, hid, text_utf8]

/-- The dictionaries of the tracks in front list all tracks exactly if no other one is of
    the type. -/
theorem lists_dictionaries_iff (type : StreamType) (front back : List TrackEntry) :
    Lists type (front ++ back) (dictionaries type front) ↔ ∀ t ∈ back, t.type ≠ type := by
  have hids : (dictionaries type front).map Track.id =
      (front.filter (·.type = type)).map fun t => toString t.userTid := by
    simp [dictionaries, dictionary_id]
  rw [Lists, hids, List.filter_append, List.map_append, List.self_eq_append_right,
    List.map_eq_nil_iff, List.filter_eq_nil_iff]
  simp

theorem length_listed (tracks : List TrackEntry) :
    (tracks.filter (·.type = .audio)).length + (tracks.filter (·.type = .sub)).length =
      (tracks.filter (·.type ≠ .video)).length := by
  induction tracks with
  | nil => rfl
  | cons t tracks ih =>
    cases htype : t.type <;> simp [htype] at ih ⊢ <;> omega

theorem Lists.length_eq {type : StreamType} {tracks : List TrackEntry} {dics : List Track}
    (h : Lists type tracks dics) : dics.length = (tracks.filter (·.type = type)).length := by
  simpa using congrArg List.length h

theorem eq_video_iff (t : TrackEntry) : t.type = .video ↔ t.type ≠ .audio ∧ t.type ≠ .sub := by
  cases t.type <;> decide

/-- Where every string is UTF-8, the loop misses at most what is behind the last number that
    an `int` counts to. -/
theorem survives_iff_of_valid {o : Object} (ho : Loaded o) {tracks : List TrackEntry}
    (hvalid : ∀ t ∈ counted tracks, ValidStrings t) :
    Survives o tracks ↔ ∀ t ∈ tracks.drop (2 ^ 31 - 1), t.type = .video := by
  obtain ⟨hreturns, haudio, hsub⟩ := initialized_eq ho tracks
  have hwhole : (counted tracks).takeWhile (decide <| ValidStrings ·) = counted tracks :=
    List.takeWhile_eq_self_iff.mpr fun t ht => decide_eq_true (hvalid t ht)
  have hall : (counted tracks).all (decide <| ValidStrings ·) = true :=
    List.all_eq_true.mpr fun t ht => decide_eq_true (hvalid t ht)
  have hsplit : counted tracks ++ tracks.drop (2 ^ 31 - 1) = tracks := List.take_append_drop _ _
  have hlists (type : StreamType) : Lists type tracks (dictionaries type (counted tracks)) ↔
      ∀ t ∈ tracks.drop (2 ^ 31 - 1), t.type ≠ type := by
    rw [← lists_dictionaries_iff, hsplit]
  rw [hwhole] at haudio hsub
  constructor
  · intro h t ht
    have hnotAudio := (hlists .audio).mp (haudio ▸ h.audio) t ht
    have hnotSub := (hlists .sub).mp (hsub ▸ h.sub) t ht
    exact (eq_video_iff t).mpr ⟨hnotAudio, hnotSub⟩
  · intro hvideo
    have hlistsAudio : Lists .audio tracks (initialized o tracks).2.obj.audioArray :=
      haudio ▸ (hlists .audio).mpr fun t ht => ((eq_video_iff t).mp (hvideo t ht)).1
    have hlistsSub : Lists .sub tracks (initialized o tracks).2.obj.subArray :=
      hsub ▸ (hlists .sub).mpr fun t ht => ((eq_video_iff t).mp (hvideo t ht)).2
    refine ⟨hreturns.trans hall, hlistsAudio, hlistsSub, fun _ => ?_⟩
    rw [hlistsAudio.length_eq, hlistsSub.length_eq, length_listed]

theorem Survives.valid {o : Object} (ho : Loaded o) {tracks : List TrackEntry}
    (h : Survives o tracks) : ∀ t ∈ counted tracks, ValidStrings t := by
  have hall := (initialized_eq ho tracks).1.symm.trans h.returns
  exact fun t ht => of_decide_eq_true (List.all_eq_true.mp hall t ht)

/-- `initTrackList` returns with every audio and sub track exactly if each string that the
    file gives for a track is UTF-8. -/
theorem survives_iff {o : Object} (ho : Loaded o) (tracks : List TrackEntry) :
    Survives o tracks ↔ WellFormed tracks := by
  constructor
  · intro h
    have hvalid := h.valid ho
    exact ⟨hvalid, (survives_iff_of_valid ho hvalid).mp h⟩
  · rintro ⟨hvalid, hvideo⟩
    exact (survives_iff_of_valid ho hvalid).mpr hvideo

/-- The titles are `é` and absent. -/
theorem survives_of_utf8 :
    Survives readyObject [{ userTid := 1, type := .audio, title := some [0xC3, 0xA9] },
      { userTid := 1, type := .sub }] :=
  (survives_iff loaded_readyObject _).mpr (by simp [WellFormed, counted]; decide)

/-- The title of the second audio track is Latin-1. -/
theorem not_survives_latin1 :
    ¬ ∀ (o : Object) (tracks : List TrackEntry), Loaded o → Survives o tracks := by
  intro h
  have hsurvives := h readyObject [{ userTid := 1, type := .audio },
    { userTid := 2, type := .audio, title := some [0xE9] }] loaded_readyObject
  have hvalid := hsurvives.valid loaded_readyObject _ (List.mem_cons_of_mem _ List.mem_cons_self)
  exact absurd hvalid (by decide)

end Core
