-- SUMMARY: The statuses that the delegate receives for an item, as a function of what happened since its `START_FILE`.
import KitPlayerCore.Core.Methods
import KitPlayerCore.Mpv.Playback

/-!
# The statuses of an item

`handleEvent:` keeps two flags for the item that plays: `isLoaded`, and
`isManualStop`, which `open` sets. Here events are handled and calls are made one
after the other, so that a method runs from its start to its end.
-/

namespace Core

open Mpv Transition

/-! ## Methods that run alone -/

/-- The object, and the statuses that the delegate has received. -/
structure Record where
  obj : Object
  sent : List EventStatus := []

/-- What mpv answers while it accepts every call and has nothing to report. -/
def quietAnswer : (f : Api) → f.Res
  | .setOptionString _ _ => (0 : Int)
  | .command _ => (0 : Int)
  | .setProperty _ _ => (0 : Int)
  -- MPV_ERROR_PROPERTY_UNAVAILABLE
  | .getProperty _ _ => .error (-10)
  | .waitEvent => ⟨.none, .none⟩
  | .clearWakeupCallback => ()
  | .detachDestroy => ()

/-- The effect of an operation that nothing interrupts. The delegate only takes
    note of the status. -/
def Record.perform : (op : Op) → Record → op.Res × Record
  | .get v, s => (s.obj.get v, s)
  | .set v x, s => ((), { s with obj := s.obj.set v x })
  | .deliver status, s => ((), { s with sent := s.sent ++ [status] })
  | .call _ f, s => (quietAnswer f, s)
  | .initWithCString _, s => (none, s)
  | .uninitialized, s => ((0 : Float), s)
  | .lock _, s | .unlock _, s | .glCall _, s | .free _, s | .dispatch _, s | .inDelegate, s =>
    ((), s)

/-- Run a method to its end. -/
def Record.after (p : Core Unit) (s : Record) : Record := (p.run Record.perform s).2

/-- What the object is told. -/
inductive Input where
  | setUrl (url : Option NSString)
  | open
  | stop
  | event (e : Event)
  deriving DecidableEq

/-- The method that an input runs. -/
def Input.body : Input → Core Unit
  | .setUrl url => Core.setUrl url
  | .open => Core.open
  | .stop => Core.stop
  | .event e => handleEvent e

def Record.inputs (s : Record) (is : List Input) : Record :=
  is.foldl (fun s i => s.after i.body) s

/-- `open` passes its tests. -/
def Object.accepts (o : Object) : Bool := o.mpv.isSome && o.url.isSome

/-! ## What each input does -/

theorem after_setUrl (s : Record) (url : Option NSString) :
    s.after (Core.setUrl url) = { s with obj := { s.obj with url := url } } := rfl

theorem after_open (s : Record) :
    s.after Core.open =
      if s.obj.accepts then { s with obj := { s.obj with isManualStop := true } } else s := by
  cases hm : s.obj.mpv <;> cases hu : s.obj.url <;>
    simp [Record.after, Core.open, Record.perform, Object.get, Object.set, Object.accepts, hm, hu]

theorem after_stop (s : Record) : s.after Core.stop = s := by
  cases hm : s.obj.mpv <;>
    simp [Record.after, Core.stop, Record.perform, Object.get, hm]

theorem after_startFile (s : Record) {e : Event} (he : e.eventId = .startFile) :
    s.after (handleEvent e) =
      { s with obj := { s.obj with
          isLoaded := false
          isError := false
          isManualStop := false
          isStopEvent := false
          isInitTrack := false
          subArray := []
          audioArray := [] } } := by
  simp [Record.after, handleEvent, he, Record.perform, Object.set]

theorem after_playbackRestart (s : Record) {e : Event} (he : e.eventId = .playbackRestart) :
    s.after (handleEvent e) =
      if s.obj.isManualStop || s.obj.isLoaded then s
      else { obj := { s.obj with isLoaded := true }, sent := s.sent ++ [.readyToPlay] } := by
  cases hm : s.obj.isManualStop <;> cases hl : s.obj.isLoaded <;>
    simp [Record.after, handleEvent, runCoreEvent, he, Record.perform, Object.get, Object.set, hm,
      hl]

theorem after_endFile (s : Record) {e : Event} (he : e.eventId = .endFile) :
    s.after (handleEvent e) =
      if s.obj.isManualStop then s
      else if s.obj.isLoaded then { s with sent := s.sent ++ [.atItemEnd] }
      else { obj := { s.obj with isError := true }, sent := s.sent ++ [.failed] } := by
  cases hm : s.obj.isManualStop <;> cases hl : s.obj.isLoaded <;>
    simp [Record.after, handleEvent, runCoreEvent, he, Record.perform, Object.get, Object.set, hm,
      hl]

/-- An event that says nothing about the item. -/
def Aside (e : Event) : Prop :=
  e.eventId ≠ .startFile ∧ e.eventId ≠ .playbackRestart ∧ e.eventId ≠ .endFile

theorem after_aside (s : Record) {e : Event} (he : Aside e) : s.after (handleEvent e) = s := by
  obtain ⟨hs, hr, hf⟩ := he
  simp only [Record.after, handleEvent]
  split <;> first | contradiction | rfl

/-! ## Items -/

/-- What may happen at any time. -/
inductive Meanwhile where
  | setUrl (url : Option NSString)
  | open
  | stop
  | other (e : Event) (h : Aside e)

/-- What may happen while the item plays. -/
inductive Played where
  | restart
  | meanwhile (m : Meanwhile)

/-- What the core knows when it ends an item. -/
structure Closing where
  stopPlay : StopPlay
  errorPlaying : Int
  shownFrames : Bool
  deriving DecidableEq, Repr

/-- From a `START_FILE` up to the next one. The end comes with what happens after it. -/
structure Item where
  during : List Played
  ending : Option (Closing × List Meanwhile) := none

def Meanwhile.input : Meanwhile → Input
  | .setUrl url => .setUrl url
  | .open => .open
  | .stop => .stop
  | .other e _ => .event e

def Played.input : Played → Input
  | .restart => .event ⟨.playbackRestart, .none⟩
  | .meanwhile m => m.input

/-- The reason and the error that `play_current_file` computes. -/
def Closing.endFile (c : Closing) : EndFileReason × Int :=
  Playback.endFileEvent c.stopPlay c.errorPlaying c.shownFrames

def Closing.input (c : Closing) : Input := .event ⟨.endFile, .endFile c.endFile.1 c.endFile.2⟩

def Item.ended (item : Item) : List Input :=
  match item.ending with
  | none => []
  | some (c, later) => c.input :: later.map Meanwhile.input

def Item.inputs (item : Item) : List Input :=
  .event ⟨.startFile, .none⟩ :: item.during.map Played.input ++ item.ended

/-! ## What the item has seen -/

/-- The URL after it. -/
def Meanwhile.url (url : Option NSString) : Meanwhile → Option NSString
  | .setUrl url' => url'
  | _ => url

def Played.url (url : Option NSString) : Played → Option NSString
  | .restart => url
  | .meanwhile m => m.url url

/-- The URL after the item. -/
def Item.url (url : Option NSString) (item : Item) : Option NSString :=
  let played := item.during.foldl Played.url url
  match item.ending with
  | none => played
  | some (_, later) => later.foldl Meanwhile.url played

/-- The step is a call of `open` that passes its tests. -/
def Played.opens (mpv : Option Handle) (url : Option NSString) : Played → Bool
  | .meanwhile .open => mpv.isSome && url.isSome
  | _ => false

def Played.restarts : Played → Bool
  | .restart => true
  | .meanwhile _ => false

/-- `open` was called since `START_FILE`. Each call is tested where it is made. -/
def opened (mpv : Option Handle) (url : Option NSString) : List Played → Bool
  | [] => false
  | p :: l => p.opens mpv url || opened mpv (p.url url) l

/-- There was a `PLAYBACK_RESTART` before the first call of `open`. -/
def readied (mpv : Option Handle) (url : Option NSString) : List Played → Bool
  | [] => false
  | p :: l => !p.opens mpv url && (p.restarts || readied mpv (p.url url) l)

/-- What the delegate is to receive at the end of the item. -/
def Item.atEnd (mpv : Option Handle) (url : Option NSString) (item : Item) : List EventStatus :=
  if opened mpv url item.during then []
  else if readied mpv url item.during then [.atItemEnd]
  else [.failed]

/-- What the delegate is to receive for the item. -/
def Item.expected (mpv : Option Handle) (url : Option NSString) (item : Item) :
    List EventStatus :=
  (if readied mpv url item.during then [.readyToPlay] else []) ++
    (if item.ending.isSome then item.atEnd mpv url else [])

/-- Each item with the URL at its `START_FILE`. -/
def started (url : Option NSString) : List Item → List (Option NSString × Item)
  | [] => []
  | item :: items => (url, item) :: started (item.url url) items

/-- What the delegate is to receive for a stream of items. -/
def expectedAll (mpv : Option Handle) (url : Option NSString) (items : List Item) :
    List (List EventStatus) :=
  (started url items).map fun p => p.2.expected mpv p.1

theorem opened_concat (mpv : Option Handle) (url : Option NSString) (l : List Played)
    (p : Played) :
    opened mpv url (l ++ [p]) = (opened mpv url l || p.opens mpv (l.foldl Played.url url)) := by
  induction l generalizing url with
  | nil => simp [opened]
  | cons q l ih => simp [opened, ih, Bool.or_assoc]

/-- A restart makes the item ready unless it was opened over before. -/
theorem readied_concat (mpv : Option Handle) (url : Option NSString) (l : List Played)
    (p : Played) :
    readied mpv url (l ++ [p]) =
      (readied mpv url l || (!opened mpv url l && p.restarts)) := by
  induction l generalizing url with
  | nil => cases p with
    | restart => rfl
    | meanwhile m => cases m <;> simp [readied, opened, Played.restarts]
  | cons q l ih =>
    cases hq : q.opens mpv url with
    | true => simp [readied, opened, hq]
    | false => simp [readied, opened, hq, ih, Bool.or_assoc]

/-! ## Running through an item -/

theorem inputs_nil (s : Record) : s.inputs [] = s := rfl

theorem inputs_cons (s : Record) (i : Input) (is : List Input) :
    s.inputs (i :: is) = (s.after i.body).inputs is := rfl

theorem inputs_append (s : Record) (is is' : List Input) :
    s.inputs (is ++ is') = (s.inputs is).inputs is' :=
  List.foldl_append

/-- No event changes what `open` tests. -/
theorem after_event (s : Record) (e : Event) :
    (s.after (handleEvent e)).obj.mpv = s.obj.mpv ∧
      (s.after (handleEvent e)).obj.url = s.obj.url := by
  by_cases hs : e.eventId = .startFile
  · rw [after_startFile s hs]
    exact ⟨rfl, rfl⟩
  by_cases hr : e.eventId = .playbackRestart
  · rw [after_playbackRestart s hr]
    split <;> exact ⟨rfl, rfl⟩
  by_cases hf : e.eventId = .endFile
  · rw [after_endFile s hf]
    split
    · exact ⟨rfl, rfl⟩
    split <;> exact ⟨rfl, rfl⟩
  rw [after_aside s ⟨hs, hr, hf⟩]
  exact ⟨rfl, rfl⟩

theorem after_mpv (s : Record) (i : Input) : (s.after i.body).obj.mpv = s.obj.mpv := by
  cases i with
  | setUrl url => rw [Input.body, after_setUrl]
  | «open» =>
    rw [Input.body, after_open]
    split <;> rfl
  | stop => rw [Input.body, after_stop]
  | event e => exact (after_event s e).1

theorem inputs_mpv (s : Record) (is : List Input) : (s.inputs is).obj.mpv = s.obj.mpv := by
  induction is generalizing s with
  | nil => rfl
  | cons i is ih => rw [inputs_cons, ih, after_mpv]

/-- What may happen at any time sends nothing and leaves `isLoaded`, and a call of
    `open` that passes its tests is all that it tells the flags. -/
theorem after_meanwhile (s : Record) (m : Meanwhile) :
    (s.after m.input.body).sent = s.sent ∧
      (s.after m.input.body).obj.isLoaded = s.obj.isLoaded ∧
      (s.after m.input.body).obj.isManualStop =
        (s.obj.isManualStop || (Played.meanwhile m).opens s.obj.mpv s.obj.url) := by
  cases m with
  | setUrl url =>
    rw [Meanwhile.input, Input.body, after_setUrl]
    simp [Played.opens]
  | «open» =>
    rw [Meanwhile.input, Input.body, after_open, Played.opens, ← Object.accepts]
    by_cases ha : s.obj.accepts = true <;> simp [ha]
  | stop =>
    rw [Meanwhile.input, Input.body, after_stop]
    simp [Played.opens]
  | other e h =>
    rw [Meanwhile.input, Input.body, after_aside s h]
    simp [Played.opens]

theorem after_meanwhile_url (s : Record) (m : Meanwhile) :
    (s.after m.input.body).obj.url = m.url s.obj.url := by
  cases m with
  | setUrl url => rw [Meanwhile.input, Input.body, after_setUrl, Meanwhile.url]
  | «open» =>
    rw [Meanwhile.input, Input.body, after_open]
    split <;> rfl
  | stop =>
    rw [Meanwhile.input, Input.body, after_stop]
    rfl
  | other e h => exact (after_event s e).2

theorem inputs_meanwhile (s : Record) (ms : List Meanwhile) :
    (s.inputs (ms.map Meanwhile.input)).sent = s.sent ∧
      (s.inputs (ms.map Meanwhile.input)).obj.url = ms.foldl Meanwhile.url s.obj.url := by
  induction ms generalizing s with
  | nil => exact ⟨rfl, rfl⟩
  | cons m ms ih =>
    rw [List.map_cons, inputs_cons, List.foldl_cons, ← after_meanwhile_url,
      ← (after_meanwhile s m).1]
    exact ih _

/-- The flags of `t` are those of an item that was started in `s` and that has
    seen `l`. -/
structure Tracks (s : Record) (l : List Played) (t : Record) : Prop where
  mpv : t.obj.mpv = s.obj.mpv
  url : t.obj.url = l.foldl Played.url s.obj.url
  isManualStop : t.obj.isManualStop = opened s.obj.mpv s.obj.url l
  isLoaded : t.obj.isLoaded = readied s.obj.mpv s.obj.url l
  sent : t.sent = s.sent ++ if readied s.obj.mpv s.obj.url l then [.readyToPlay] else []

theorem Tracks.start (s : Record) : Tracks s [] (s.after (handleEvent ⟨.startFile, .none⟩)) := by
  rw [after_startFile s rfl]
  exact ⟨rfl, rfl, rfl, rfl, (List.append_nil _).symm⟩

theorem Tracks.step {s t : Record} {l : List Played} (h : Tracks s l t) (p : Played) :
    Tracks s (l ++ [p]) (t.after p.input.body) := by
  have hmpv : (t.after p.input.body).obj.mpv = s.obj.mpv := (after_mpv t _).trans h.mpv
  cases p with
  | restart =>
    have hopened : opened s.obj.mpv s.obj.url (l ++ [.restart]) =
        opened s.obj.mpv s.obj.url l := by
      simp [opened_concat, Played.opens]
    have hreadied : readied s.obj.mpv s.obj.url (l ++ [.restart]) =
        (readied s.obj.mpv s.obj.url l || !opened s.obj.mpv s.obj.url l) := by
      simp [readied_concat, Played.restarts]
    have hurl : (t.after Played.restart.input.body).obj.url =
        (l ++ [Played.restart]).foldl Played.url s.obj.url := by
      rw [List.foldl_append]
      exact (after_event t ⟨.playbackRestart, .none⟩).2.trans h.url
    refine ⟨hmpv, hurl, ?_, ?_, ?_⟩ <;>
      rw [Played.input, Input.body, after_playbackRestart t rfl, h.isManualStop, h.isLoaded] <;>
      by_cases ho : opened s.obj.mpv s.obj.url l = true <;>
      by_cases hr : readied s.obj.mpv s.obj.url l = true <;>
      simp [hopened, hreadied, ho, hr, h.isManualStop, h.isLoaded, h.sent]
  | meanwhile m =>
    obtain ⟨hsent, hloaded, hmanual⟩ := after_meanwhile t m
    have hreadied : readied s.obj.mpv s.obj.url (l ++ [.meanwhile m]) =
        readied s.obj.mpv s.obj.url l := by
      simp [readied_concat, Played.restarts]
    refine ⟨hmpv, ?_, ?_, ?_, ?_⟩
    · rw [Played.input, after_meanwhile_url, h.url, List.foldl_append]
      rfl
    · rw [Played.input, hmanual, h.isManualStop, h.mpv, h.url, opened_concat]
    · rw [Played.input, hloaded, h.isLoaded, hreadied]
    · rw [Played.input, hsent, h.sent, hreadied]

theorem Tracks.during (s : Record) (l : List Played) :
    Tracks s l (s.inputs (.event ⟨.startFile, .none⟩ :: l.map Played.input)) := by
  induction l using List.reverseRecOn with
  | nil => exact .start s
  | append_singleton l p ih =>
    rw [List.map_append, ← List.cons_append, inputs_append]
    exact ih.step p

/-- The end of the item, as the flags decide about it. -/
theorem Tracks.sent_endFile {s t : Record} {item : Item} (h : Tracks s item.during t)
    (c : Closing) :
    (t.after c.input.body).sent = t.sent ++ item.atEnd s.obj.mpv s.obj.url := by
  rw [Closing.input, Input.body, after_endFile t rfl, h.isManualStop, h.isLoaded, Item.atEnd]
  split
  · simp
  split <;> rfl

/-- What is sent for an item depends on nothing before it but the URL. -/
theorem sent_item (s : Record) (item : Item) :
    (s.inputs item.inputs).sent = s.sent ++ item.expected s.obj.mpv s.obj.url ∧
      (s.inputs item.inputs).obj.url = item.url s.obj.url := by
  have h := Tracks.during s item.during
  rw [Item.inputs, inputs_append]
  cases hend : item.ending with
  | none => simp [Item.ended, Item.expected, Item.url, hend, inputs_nil, h.sent, h.url]
  | some e =>
    obtain ⟨c, later⟩ := e
    have hurl := (after_event _ ⟨.endFile, .endFile c.endFile.1 c.endFile.2⟩).2.trans h.url
    rw [Item.ended, hend, inputs_cons, (inputs_meanwhile _ later).1,
      (inputs_meanwhile _ later).2, h.sent_endFile, h.sent, Closing.input, Input.body, hurl]
    simp [Item.expected, Item.url, hend]

theorem sent_items (s : Record) (items : List Item) :
    (s.inputs (items.flatMap Item.inputs)).sent =
      s.sent ++ (expectedAll s.obj.mpv s.obj.url items).flatten := by
  induction items generalizing s with
  | nil => simp [inputs_nil, expectedAll, started]
  | cons item items ih =>
    obtain ⟨hsent, hurl⟩ := sent_item s item
    rw [List.flatMap_cons, inputs_append, ih, hsent, hurl, inputs_mpv, List.append_assoc]
    rfl

theorem Item.expected_cases (mpv : Option Handle) (url : Option NSString) (item : Item) :
    item.expected mpv url = [] ∨ item.expected mpv url = [.readyToPlay] ∨
      item.expected mpv url = [.readyToPlay, .atItemEnd] ∨
      item.expected mpv url = [.failed] := by
  unfold Item.expected Item.atEnd
  cases item.ending.isSome <;> cases readied mpv url item.during <;>
    cases opened mpv url item.during <;> simp

/-- Whatever happened before, and whatever the flags were: the statuses of each item are the
    expected ones, where a call of `open` counts if it passes its tests where it is made. -/
theorem sent_of_items (s : Record) (before : List Input) (items : List Item) :
    (s.inputs (before ++ items.flatMap Item.inputs)).sent =
        (s.inputs before).sent ++
          (expectedAll s.obj.mpv (s.inputs before).obj.url items).flatten ∧
      ∀ statuses ∈ expectedAll s.obj.mpv (s.inputs before).obj.url items,
        statuses = [] ∨ statuses = [.readyToPlay] ∨ statuses = [.readyToPlay, .atItemEnd] ∨
          statuses = [.failed] := by
  constructor
  · rw [inputs_append, sent_items, inputs_mpv]
  · intro statuses hmem
    obtain ⟨⟨url, item⟩, -, rfl⟩ := List.mem_map.mp hmem
    exact item.expected_cases _ _

/-- A call of `open` without a URL does not keep the item from being reported, as it would if
    the URL were always set. -/
theorem sent_after_refused_open :
    ¬ ∀ (s : Record) (items : List Item), s.obj.mpv ≠ none →
      (∀ i ∈ items.flatMap Item.inputs, ∀ url, i ≠ .setUrl url) →
      (s.inputs (items.flatMap Item.inputs)).sent =
        s.sent ++ (expectedAll s.obj.mpv (some "a") items).flatten := by
  intro h
  have hsent := h { obj := { mpv := some 1 } } [⟨[.meanwhile .open, .restart], none⟩] nofun
    (by simp [Item.inputs, Item.ended, Played.input, Meanwhile.input])
  cases hsent

end Core
