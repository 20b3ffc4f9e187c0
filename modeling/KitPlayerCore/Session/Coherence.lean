-- SUMMARY: Which counts of tracks are right for an item that is ready.
import KitPlayerCore.Session.Filling

/-!
# Coherence

The handler of `MPV_EVENT_START_FILE` clears the arrays and the flag one after the other. A
count that is returned afterwards is right if the arrays were filled undisturbed.
-/

namespace Cache

open Core Mpv Transition Program

/-! ## Steps of the queue -/

/-- The queue begins a pass. -/
theorem Inv.pass {s : State} {b : Bool} {p : Core Bool} {queue : List Block} {block : Block}
    (h : Inv s) (hworker : s.worker = .ret b) (hp : Works [] p) :
    Inv { s with queue := queue, block := block, worker := p } := by
  refine ⟨⟨h.mpv, h.quiet, h.fills, ?_⟩, h.busy⟩
  obtain ⟨left, hworks, -, hc⟩ := h.work
  rw [hworker] at hworks
  obtain rfl : left = [] := hworks
  exact ⟨[], hp, absurd rfl, hc⟩

/-- The queue goes on, with `left` yet to be cleared. -/
theorem Inv.turn {s : State} {p : Core Bool} {left : List Ivar} (hmpv : s.reader.obj.mpv ≠ none)
    (hquiet : ∀ n, n ∉ s.fillers → Quiet (s.slot n).method (s.slot n).program)
    (hfills : ∀ n ∈ s.fillers, Only trackOk (s.slot n).program)
    (hbusy : ∀ n ∈ s.fillers, (s.slot n).program.done = false) (hworks : Works left p)
    (hleft : left ≠ [] → s.stage = .started ∧ s.event = .startFile) (hc : s.Coherent left) :
    Inv (s.turn p) := by
  refine ⟨⟨hmpv, hquiet, hfills, left, hworks, fun hne => ?_, ?_⟩, hbusy⟩
  · obtain ⟨hstage, hevent⟩ := hleft hne
    refine ⟨?_, hevent⟩
    simp [State.turn, hevent, hstage]
  · unfold State.turn
    split
    · trivial
    · exact hc

/-- The queue sets `isLoaded`. -/
theorem State.Coherent.isLoaded {s : State} (h : s.Coherent []) (hmpv : s.reader.obj.mpv ≠ none)
    (hfills : ∀ n ∈ s.fillers, Only trackOk (s.slot n).program) {e : Event} :
    { s.observe e (.set .isLoaded true) with
      reader := (s.answer e (.set .isLoaded true)).2 }.Coherent [] := by
  have hkeep (hstage : s.stage ≠ .started) : s.observe e (.set .isLoaded true) = s :=
    if_neg hstage
  cases hs : s.stage with
  | idle =>
    rw [hkeep (by rw [hs]; nofun), State.Coherent]
    simp only [hs]
  | started =>
    have hobserve : s.observe e (.set .isLoaded true) = { s with stage := .loaded } := if_pos hs
    rw [State.Coherent, hs] at h
    obtain ⟨hisStopEvent, hfill⟩ := h
    rw [hobserve]
    refine ⟨⟨hmpv, rfl, hisStopEvent List.not_mem_nil⟩, ?_⟩
    unfold State.Filled
    rcases hfill with hfill | ⟨hfill, hfillers, hclears⟩
    · simp only [hfill]
    · simp only [hfill]
      refine ⟨hfillers, fun v => ?_⟩
      cases v
      case isLoaded => trivial
      all_goals exact hclears _ List.not_mem_nil
  | loaded | ready =>
    have hisLoaded : s.reader.obj.isLoaded = true := by
      rw [State.Coherent, hs] at h
      exact h.1.isLoaded
    rw [hkeep (by rw [hs]; nofun)]
    exact h.alike hfills rfl rfl rfl ⟨rfl, hisLoaded, rfl, rfl, rfl, rfl, rfl, rfl⟩ fun _ _ => rfl

/-- The handler of `START_FILE` clears a variable. -/
theorem State.Coherent.clear {s : State} {left : List Ivar} (h : s.Coherent left)
    (hstage : s.stage = .started) {v : Ivar} {x : v.type} (hx : Clears v x) :
    { s with reader := { s.reader with obj := s.reader.obj.set v x } }.Coherent (left.erase v) := by
  rw [State.Coherent, hstage] at h
  rw [State.Coherent]
  simp only [hstage]
  have hclears (w : Ivar) (hw : w ∉ left.erase v)
      (hold : w ∉ left → Clears w (s.reader.obj.get w)) :
      Clears w ((s.reader.obj.set v x).get w) := by
    by_cases hwv : w = v
    · subst hwv
      rw [Object.get_set_self]
      exact hx
    · rw [Object.get_set_of_ne _ _ hwv]
      exact hold fun hmem => hw ((List.mem_erase_of_ne hwv).mpr hmem)
  refine ⟨fun hw => hclears .isStopEvent hw h.1, h.2.imp_right fun hnone => ?_⟩
  exact ⟨hnone.1, hnone.2.1, fun w hw => hclears w hw (hnone.2.2 w)⟩

/-- The queue takes an event. -/
theorem State.Coherent.waitEvent {s : State} (h : s.Coherent []) (e : Event)
    (hd : Option Handle) :
    (s.observe e (.call hd .waitEvent)).Coherent
      (if e.eventId = .startFile then resets else []) := by
  by_cases he : e.eventId = .startFile
  · have hobserve : s.observe e (.call hd .waitEvent) = { s with
        event := e.eventId
        stage := .started
        fill := if s.fillers = [] then .none else .disturbed } := if_pos he
    rw [hobserve, if_pos he]
    refine ⟨fun hleft => absurd (by decide) hleft, ?_⟩
    by_cases hfillers : s.fillers = []
    · refine .inr ⟨if_pos hfillers, hfillers, fun v hv => ?_⟩
      cases v
      case isStopEvent | isInitTrack | subArray | audioArray => exact absurd (by decide) hv
      all_goals trivial
    · exact .inl (if_neg hfillers)
  · have hobserve : s.observe e (.call hd .waitEvent) = { s with event := e.eventId } := if_neg he
    rw [hobserve, if_neg he]
    exact h

/-- The queue reports to the delegate. -/
theorem State.Coherent.deliver {s : State} (h : s.Coherent []) (e : Event)
    (status : EventStatus) : (s.observe e (.deliver status)).Coherent [] := by
  cases status with
  | failed | atItemEnd => exact h
  | readyToPlay =>
    by_cases hs : s.stage = .loaded
    · have hobserve : s.observe e (.deliver .readyToPlay) = { s with stage := .ready } := if_pos hs
      rw [State.Coherent, hs] at h
      rw [hobserve]
      exact h
    · have hobserve : s.observe e (.deliver .readyToPlay) = s := if_neg hs
      rw [hobserve]
      exact h

/-- What is recorded of an operation. -/
theorem State.observe_frame (s : State) (e : Event) (op : Op) :
    s.observe e op = { s with
      event := (s.observe e op).event
      stage := (s.observe e op).stage
      fill := (s.observe e op).fill } := by
  unfold State.observe
  split <;> (try split) <;> rfl

/-- What the queue does next leads to such a state. -/
theorem Inv.answer {s : State} {e : Event} {op : Op} {k : op.Res → Core Bool} (h : Inv s)
    (hworker : s.worker = .act op k) (hop : op ≠ .inDelegate) :
    (s.answer e op).2.obj.mpv ≠ none ∧ ∃ left, Works left (k (s.answer e op).1) ∧
      (left ≠ [] → (s.observe e op).stage = .started ∧ (s.observe e op).event = .startFile) ∧
      { s.observe e op with reader := (s.answer e op).2 }.Coherent left := by
  obtain ⟨left, hworks, hleft, hc⟩ := h.work
  rw [hworker] at hworks
  obtain ⟨hok, hnext⟩ := hworks
  cases left with
  | nil =>
    cases op with
    | get v => exact ⟨h.mpv, [], hnext _ trivial [] rfl, absurd rfl, hc⟩
    | set v x =>
      cases v
      case isLoaded =>
        obtain rfl : x = true := hok
        exact ⟨h.mpv, [], hnext () trivial [] rfl, absurd rfl, hc.isLoaded h.mpv h.fills⟩
      case isError =>
        refine ⟨h.mpv, [], hnext () trivial [] rfl, absurd rfl, ?_⟩
        exact hc.alike h.fills rfl rfl rfl ⟨rfl, rfl, rfl, rfl, rfl, rfl, rfl, rfl⟩ fun _ _ => rfl
      all_goals cases hok
    | call hd f =>
      rcases hok with rfl | ⟨args, rfl⟩
      · have hreader : { s.observe e (.call hd .waitEvent) with reader := s.reader } =
            s.observe e (.call hd .waitEvent) := by
          rw [s.observe_frame]
        refine ⟨h.mpv, _, hnext e trivial _ rfl, fun hne => ?_, hreader ▸ hc.waitEvent e hd⟩
        by_cases he : e.eventId = .startFile
        · simp [State.observe, he]
        · exact absurd (if_neg he) hne
      · have hreader : (s.answer e (.call hd (.command args))).2 = s.reader := by
          cases hd <;> rfl
        rw [hreader]
        exact ⟨h.mpv, [], hnext _ trivial [] rfl, absurd rfl, hc⟩
    | deliver status =>
      refine ⟨h.mpv, [], hnext () trivial [] rfl, absurd rfl, ?_⟩
      have hreader : { s.observe e (.deliver status) with reader := s.reader } =
          s.observe e (.deliver status) := by
        rw [s.observe_frame]
      exact hreader ▸ hc.deliver e status
    | inDelegate => exact absurd rfl hop
    | lock | unlock | glCall | free | initWithCString | uninitialized | dispatch => exact hok.elim
  | cons w left =>
    have hstarted := hleft (List.cons_ne_nil w left)
    cases op with
    | set v x =>
      have hclear (hv : v ≠ .mpv) (hx : Clears v x) (hobserve : s.observe e (.set v x) = s) :
          (s.answer e (.set v x)).2.obj.mpv ≠ none ∧ ∃ left, Works left (k ()) ∧
            (left ≠ [] → (s.observe e (.set v x)).stage = .started ∧
              (s.observe e (.set v x)).event = .startFile) ∧
            { s.observe e (.set v x) with reader := (s.answer e (.set v x)).2 }.Coherent left := by
        have hmpv : (s.reader.obj.set v x).mpv = s.reader.obj.mpv :=
          s.reader.obj.get_set_of_ne x hv.symm
        rw [hobserve]
        exact ⟨hmpv ▸ h.mpv, _, hnext () trivial _ rfl, fun _ => hstarted, hc.clear hstarted.1 hx⟩
      cases v
      case isLoaded =>
        obtain rfl : x = false := hok
        exact hclear nofun trivial rfl
      all_goals exact hclear hok.1 hok.2 rfl
    | get | call | lock | unlock | glCall | free | initWithCString | uninitialized | dispatch
    | deliver | inDelegate => exact hok.elim

theorem Inv.runWorker {s s' : State} {e : Event} (h : Inv s) (hs : s.runWorker e = some s') :
    Inv s' := by
  unfold State.runWorker at hs
  split at hs
  · cases hs
  · rename_i k hworker
    split at hs
    · cases hs
      obtain ⟨left, hworks, hleft, hc⟩ := h.work
      rw [hworker] at hworks
      refine .turn h.mpv h.quiet h.fills h.busy (hworks.2 () trivial left ?_) hleft hc
      cases left <;> rfl
    · cases hs
  · rename_i op k hop hworker
    cases hs
    have hne : op ≠ .inDelegate := by
      rintro rfl
      exact hop k rfl HEq.rfl
    obtain ⟨hmpv, left, hworks, hleft, hc⟩ := h.answer (e := e) hworker hne
    rw [s.observe_frame] at hleft hc ⊢
    exact .turn hmpv h.quiet h.fills h.busy hworks hleft hc

/-! ## Runs -/

theorem Inv.step {s s' : State} {l : Label} (h : Inv s) (hs : step s l = some s') : Inv s' := by
  cases l with
  | call n m =>
    simp only [Cache.step, Option.ite_none_right_eq_some, Option.some.injEq] at hs
    obtain ⟨hfree, rfl⟩ := hs
    exact h.call hfree m
  | caller n => exact h.runCaller hs
  | reuse n str =>
    simp only [Cache.step] at hs
    split at hs
    · cases hs
      exact h.disturb rfl
    · cases hs
  | take =>
    simp only [Cache.step] at hs
    split at hs
    · rename_i b queue hworker hqueue
      cases hs
      exact h.pass hworker (works_body b)
    · cases hs
  | again =>
    simp only [Cache.step] at hs
    split at hs
    · rename_i hworker
      cases hs
      exact h.pass hworker works_readEventsPass
    · cases hs
  | work e => exact h.runWorker hs
  | tracks tracks =>
    cases hs
    exact h.disturb rfl

theorem inv_of_reachable {s : State} (h : cache.Reachable s) : Inv s := by
  apply h.invariant
  · rintro s ⟨hd, o, tracks, rfl⟩
    exact ⟨⟨nofun, fun _ _ => .returned none, nofun, [], rfl, absurd rfl, trivial⟩, nofun⟩
  · exact fun s s' l hi _ hs => hi.step hs

theorem State.Performs.tracks {s t : State} {n : Nat} {op : Op} {x : op.Res}
    (h : s.Performs n op x t) : t.reader.tracks = s.reader.tracks := by
  cases h with
  | finds => rfl
  | passes => exact perform_tracks op s.reader

/-- What a thread returns that does not fill the arrays is the length of one of them. -/
theorem Quiet.value {s t : State} {n : Nat} {op : Op} {k : op.Res → Core (Option Nat)} {x : op.Res}
    {value : Option Nat} {m : Method} (h : Quiet m (.act op k)) (hperform : s.Performs n op x t)
    (hvalue : k x = .ret value) {seen : List TrackEntry} (hholds : Holds s.reader.obj seen)
    (hcounts : m.expected seen ≠ none) : value = m.expected seen := by
  generalize hp : Program.act op k = p at h
  cases h with
  | returned value => cases hp
  | called hm =>
    obtain ⟨f, hbody, hrest, hdone⟩ := Method.body_of_counts hm
    obtain ⟨rfl, hk⟩ := Program.act.inj (hp.trans hbody)
    obtain rfl := eq_of_heq hk
    cases hperform with
    | finds hflag =>
      rw [hvalue] at hdone
      cases hdone
    | passes op queue holder hpass =>
      rw [perform_get, Object.get, hpass rfl, hrest] at hvalue
      cases m with
      | audioCount | subtitleCount => cases hvalue
      | «open» | addSubtitle | addAudio | initTrackList | wakeup => exact absurd rfl hcounts
  | tested =>
    cases m with
    | audioCount =>
      obtain ⟨rfl, hk⟩ := Program.act.inj hp
      obtain rfl := eq_of_heq hk
      cases hperform with
      | passes op queue holder hpass =>
        exact (Program.ret.inj hvalue).symm.trans (congrArg some hholds.1)
    | subtitleCount =>
      obtain ⟨rfl, hk⟩ := Program.act.inj hp
      obtain rfl := eq_of_heq hk
      cases hperform with
      | passes op queue holder hpass =>
        exact (Program.ret.inj hvalue).symm.trans (congrArg some hholds.2)
    | «open» | addSubtitle | addAudio | initTrackList | wakeup => cases hp
  | other hm honly =>
    cases m with
    | initTrackList | audioCount | subtitleCount => exact absurd trivial hm
    | «open» | addSubtitle | addAudio | wakeup => exact absurd rfl hcounts

/-- What a thread returns for a current item is what is expected, if it is fresh. -/
theorem Inv.returns {s t : State} {n : Nat} {op : Op} {k : op.Res → Core (Option Nat)} {x : op.Res}
    {value : Option Nat} (h : Inv s) (hprogram : (s.slot n).program = .act op k)
    (hperform : s.Performs n op x t) (hvalue : k x = .ret value) (hready : s.stage = .ready)
    (hfresh : s.Fresh n) {expected : Nat}
    (hexpected : (s.slot n).method.expected t.reader.tracks = some expected) :
    value = some expected := by
  obtain ⟨left, -, -, hc⟩ := h.work
  rw [State.Coherent, hready] at hc
  obtain ⟨-, hfilled⟩ := hc
  rw [hperform.tracks] at hexpected
  rw [← hexpected]
  unfold State.Filled at hfilled
  unfold State.Fresh at hfresh
  cases hfill : s.fill with
  | none | disturbed =>
    rw [hfill] at hfresh
    exact hfresh.elim
  | running m seen =>
    rw [hfill] at hfilled hfresh
    obtain ⟨rfl, hvalid⟩ := hfresh
    obtain ⟨hfillers, rfl, hrun⟩ := hfilled
    obtain ⟨hreturn, -⟩ := hrun hvalid
    rw [hprogram, run_act] at hreturn
    have hx : x = (Reader.perform .none op s.reader).1 := by
      cases hperform with
      | finds hflag => exact hflag.symm
      | passes => rfl
    rw [← hx, hvalue] at hreturn
    exact hreturn
  | done seen =>
    rw [hfill] at hfilled hfresh
    obtain ⟨hvalid, hsame⟩ := hfresh
    obtain ⟨hfillers, hholds⟩ := hfilled
    have hquiet := h.quiet n (by rw [hfillers]; exact List.not_mem_nil)
    rw [hprogram] at hquiet
    rw [hsame] at hexpected ⊢
    exact hquiet.value hperform hvalue (hholds hvalid) (by rw [hexpected]; nofun)

/-- A step of a thread records what it returns for a current item. -/
theorem Inv.counted {s s' : State} {n : Nat} (h : Inv s) (hg : Settled s (.caller n))
    (hs : Cache.step s (.caller n) = some s')
    (hcounted : ∀ c ∈ s.counted, c.value = some c.expected) :
    ∀ c ∈ s'.counted, c.value = some c.expected := by
  have hfresh := hg s' hs
  simp only [Cache.step, State.runCaller] at hs
  split at hs
  · cases hs
  · rename_i op k hprogram
    obtain ⟨⟨x, t⟩, hperform, rfl⟩ := Option.map_eq_some_iff.mp hs
    have hperforms := State.performs hperform
    have hsame : t.counted = s.counted ∧ t.stage = s.stage ∧ t.slot = s.slot := by
      cases hperforms <;> exact ⟨rfl, rfl, rfl⟩
    obtain ⟨hcounts, hstage, hslot⟩ := hsame
    cases hk : k x with
    | act op' k' =>
      simp only [State.resume, State.goto, hcounts]
      exact hcounted
    | ret value =>
      simp only [hk, State.resume, State.goto, State.finish, hcounts, hslot] at hfresh ⊢
      split
      · rename_i hcurrent
        rw [if_pos hcurrent] at hfresh
        cases hexpected : (s.slot n).method.expected t.reader.tracks with
        | none => simpa [hexpected] using hcounted
        | some expected =>
          simp only [hexpected, Option.map_some, Option.toList_some] at hfresh ⊢
          intro c hc
          rcases List.mem_append.mp hc with hc | hc
          · exact hcounted c hc
          · obtain rfl := List.mem_singleton.mp hc
            have hready : s.stage = .ready := by
              simp only [State.current, Bool.and_eq_true, decide_eq_true_eq] at hcurrent
              exact hstage ▸ hcurrent.1.1
            exact h.returns hprogram hperforms hk hready (hfresh (by simp)) hexpected
      · exact hcounted

/-- Only the threads return counts. -/
theorem counted_of_ne {s s' : State} {l : Label} (hs : step s l = some s')
    (hl : ∀ n, l ≠ .caller n) : s'.counted = s.counted := by
  cases l with
  | caller n => exact absurd rfl (hl n)
  | call | reuse | take | again =>
    simp only [step] at hs
    split at hs <;> cases hs
    rfl
  | work e =>
    simp only [step, State.runWorker] at hs
    split at hs
    · cases hs
    · split at hs <;> cases hs
      rfl
    · cases hs
      rw [s.observe_frame]
      rfl
  | tracks =>
    cases hs
    rfl

/-- For a ready item, the counts that are returned are those of the track list. -/
theorem counts_of_settled {s : State} (h : cache.Under Settled s) :
    ∀ c ∈ s.counted, c.value = some c.expected := by
  apply h.invariant_of (I := fun s => ∀ c ∈ s.counted, c.value = some c.expected)
    fun s hs => inv_of_reachable hs.reachable
  · rintro s ⟨hd, o, tracks, rfl⟩
    nofun
  · intro s s' l hinv hcounted hg hs
    by_cases hl : ∃ n, l = .caller n
    · obtain ⟨n, rfl⟩ := hl
      exact hinv.counted hg hs hcounted
    · rw [counted_of_ne hs fun n hn => hl ⟨n, hn⟩]
      exact hcounted

/-- A test that is enough for `Valid`. -/
def valid (tracks : List TrackEntry) : Bool :=
  tracks.length < 2 ^ 31 && tracks.all fun t =>
    (t.title.toList ++ t.lang.toList ++ t.codec.toList).all fun str =>
      (NSString.initWithCString str).isSome

theorem valid_of_test {tracks : List TrackEntry} (h : valid tracks = true) : Valid tracks := by
  simp only [valid, Bool.and_eq_true, decide_eq_true_eq, List.all_eq_true] at h
  exact ⟨h.1, fun t ht str hstr => Option.isSome_iff_ne_none.mp (h.2 t ht str hstr)⟩

/-- A test that is enough for `Fresh`. -/
def State.fresh (s : State) (n : Nat) : Bool :=
  match s.fill with
  | .running m seen => m = n && valid seen
  | .done seen =>
    valid seen && (s.slot n).method.expected s.reader.tracks = (s.slot n).method.expected seen
  | .none | .disturbed => false

theorem State.fresh_of_test {s : State} {n : Nat} (h : s.fresh n = true) : s.Fresh n := by
  unfold State.fresh at h
  unfold State.Fresh
  cases hfill : s.fill with
  | none | disturbed =>
    rw [hfill] at h
    cases h
  | running m seen =>
    simp only [hfill, Bool.and_eq_true, decide_eq_true_eq] at h
    exact ⟨h.1, valid_of_test h.2⟩
  | done seen =>
    simp only [hfill, Bool.and_eq_true, decide_eq_true_eq] at h
    exact ⟨valid_of_test h.1, h.2⟩

/-- A test that is enough for `Settled`. -/
def settles (s : State) : Label → Bool
  | .caller n => s.fresh n || match step s (.caller n) with
    | some t => t.counted = s.counted
    | none => true
  | _ => true

theorem settled_of_settles (s : State) (l : Label) (h : settles s l = true) : Settled s l := by
  cases l with
  | caller n =>
    intro t ht hne
    simp only [settles, ht, Bool.or_eq_true, decide_eq_true_eq] at h
    exact State.fresh_of_test (h.resolve_right hne)
  | call | reuse | take | again | work | tracks => trivial

/-- The queue runs a pass of `n` operations, and is given the event. -/
def pass (eventId : EventId) (n : Nat) : List Label := .replicate n (.work ⟨eventId, .none⟩)

/-- The queue handles the start of a file. -/
def startFile : List Label := .take :: pass .startFile 11

/-- The queue reports that the item is ready. -/
def playbackRestart : List Label := .again :: pass .playbackRestart 9

/-- A thread asks for the number of audio tracks, and goes on for `n` operations. -/
def countAudio (n : Nat) : List Label := .call 1 .audioCount :: .replicate n (.caller 1)

/-- A track of the item. -/
def audioTrack : TrackEntry := { userTid := 1, type := .audio }

/-- The tracks of the item are asked for when it is ready. -/
theorem counts_after_playbackRestart :
    ∃ s, cache.Under Settled s ∧ s.counted ≠ [] ∧ ∀ c ∈ s.counted, c.value = some c.expected := by
  obtain ⟨s, hs, hcounted⟩ := Machine.Under.execIf_any settled_of_settles
    (.init ⟨1, {}, [], rfl⟩ : cache.Under Settled (.afterInitView 1 {} []))
    (startFile ++ [.tracks [audioTrack]] ++ playbackRestart ++ countAudio 67)
    (p := fun s => s.counted ≠ []) (by decide +kernel)
  exact ⟨s, hs, by simpa using hcounted, counts_of_settled hs⟩

/-- A call that comes before the item is loaded sets the flag and reads nothing. -/
theorem not_counts_before_playbackRestart :
    ¬ ∀ s, cache.Reachable s → ∀ c ∈ s.counted, c.value = some c.expected := by
  intro h
  obtain ⟨s, hs, hcounted⟩ := Machine.Reachable.exec_any
    (.init ⟨1, {}, [], rfl⟩ : cache.Reachable (.afterInitView 1 {} []))
    (startFile ++ countAudio 7 ++ [.tracks [audioTrack]] ++ playbackRestart ++ countAudio 2)
    (p := fun s => s.counted = [⟨some 0, 1⟩]) (by decide +kernel)
  have hone := h s hs ⟨some 0, 1⟩ (by simp [of_decide_eq_true hcounted])
  cases hone

end Cache
