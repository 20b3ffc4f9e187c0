-- SUMMARY: What is known of the arrays of tracks at every point of a run, and that the threads keep to it.
import KitPlayerCore.Session.Cache

/-!
# Filling the arrays

The arrays are right from `START_FILE` on if one call fills them alone: what the call has left
is known to fill them, as long as no other step concerns it. Every step keeps this, or it is
recorded that the call was disturbed.
-/

namespace Cache

open Core Mpv Transition Program

/-! ## The invariant -/

/-- What is known of the arrays when the item is loaded. -/
def State.Filled (s : State) : Prop :=
  match s.fill with
  | .none => s.fillers = [] ∧ ∀ v, Clears v (s.reader.obj.get v)
  | .running n seen =>
    s.fillers = [n] ∧ s.reader.tracks = seen ∧
      (Valid seen → Fills s.reader (s.slot n).method (s.slot n).program seen)
  | .done seen => s.fillers = [] ∧ (Valid seen → Holds s.reader.obj seen)
  | .disturbed => True

/-- What is known of the arrays when the variables `left` are yet to be cleared. -/
def State.Cleared (s : State) (left : List Ivar) : Prop :=
  s.fill = .disturbed ∨
    s.fill = .none ∧ s.fillers = [] ∧ ∀ v, v ∉ left → Clears v (s.reader.obj.get v)

/-- What is known of the arrays at any time. -/
def State.Coherent (s : State) (left : List Ivar) : Prop :=
  match s.stage with
  | .idle => True
  | .started => (.isStopEvent ∉ left → s.reader.obj.isStopEvent = false) ∧ s.Cleared left
  | .loaded | .ready => Readable s.reader.obj ∧ s.Filled

/-- The invariant, up to the operation that a thread is at. -/
structure Sound (s : State) : Prop where
  mpv : s.reader.obj.mpv ≠ none
  quiet : ∀ n, n ∉ s.fillers → Quiet (s.slot n).method (s.slot n).program
  fills : ∀ n ∈ s.fillers, Only trackOk (s.slot n).program
  work : ∃ left, Works left s.worker ∧ (left ≠ [] → s.stage = .started ∧ s.event = .startFile) ∧
    s.Coherent left

structure Inv (s : State) : Prop extends Sound s where
  busy : ∀ n ∈ s.fillers, (s.slot n).program.done = false

theorem Alike.clears {s t : Reader} (h : Alike s t) {v : Ivar} (hv : Clears v (s.obj.get v)) :
    Clears v (t.obj.get v) := by
  cases v
  case isStopEvent => exact h.isStopEvent.symm.trans hv
  case isInitTrack => exact h.isInitTrack.symm.trans hv
  case subArray => exact h.subArray.symm.trans hv
  case audioArray => exact h.audioArray.symm.trans hv
  all_goals trivial

theorem loaded_of_clears {o : Object} (h : Readable o) (hclears : ∀ v, Clears v (o.get v)) :
    Loaded o where
  mpv := h.mpv
  isLoaded := h.isLoaded
  isStopEvent := h.isStopEvent
  isInitTrack := hclears .isInitTrack
  subArray := hclears .subArray
  audioArray := hclears .audioArray

/-- A step within one stage. -/
theorem State.Coherent.map {s t : State} {left : List Ivar} (h : s.Coherent left)
    (hstage : t.stage = s.stage) (hmpv : t.reader.obj.mpv = s.reader.obj.mpv)
    (hisLoaded : t.reader.obj.isLoaded = s.reader.obj.isLoaded)
    (hisStopEvent : t.reader.obj.isStopEvent = s.reader.obj.isStopEvent)
    (hcleared : s.Cleared left → t.Cleared left) (hfilled : s.Filled → t.Filled) :
    t.Coherent left := by
  unfold State.Coherent at h ⊢
  rw [hstage]
  cases hs : s.stage with
  | idle => trivial
  | started =>
    rw [hs] at h
    exact ⟨fun hleft => hisStopEvent.trans (h.1 hleft), hcleared h.2⟩
  | loaded | ready =>
    rw [hs] at h
    obtain ⟨hreadable, hf⟩ := h
    exact ⟨⟨hmpv ▸ hreadable.mpv, hisLoaded.trans hreadable.isLoaded,
      hisStopEvent.trans hreadable.isStopEvent⟩, hfilled hf⟩

/-- A step that leaves alone what the threads that fill the arrays depend on. -/
theorem State.Coherent.alike {s t : State} {left : List Ivar} (h : s.Coherent left)
    (hfills : ∀ n ∈ s.fillers, Only trackOk (s.slot n).program) (hstage : t.stage = s.stage)
    (hfill : t.fill = s.fill) (hfillers : t.fillers = s.fillers)
    (hreader : Alike s.reader t.reader) (hslot : ∀ n ∈ s.fillers, t.slot n = s.slot n) :
    t.Coherent left := by
  refine h.map hstage hreader.mpv.symm hreader.isLoaded.symm hreader.isStopEvent.symm
    (fun hc => ?_) fun hf => ?_
  · rw [State.Cleared, hfill, hfillers]
    refine hc.imp_right fun hnone => ⟨hnone.1, hnone.2.1, fun v hv => ?_⟩
    exact hreader.clears (hnone.2.2 v hv)
  · unfold State.Filled at hf ⊢
    rw [hfill, hfillers, ← hreader.tracks]
    cases hs : s.fill with
    | none =>
      rw [hs] at hf
      exact ⟨hf.1, fun v => hreader.clears (hf.2 v)⟩
    | running n seen =>
      rw [hs] at hf
      obtain ⟨hn, htracks, hrun⟩ := hf
      have hmem : n ∈ s.fillers := hn ▸ List.mem_singleton_self n
      refine ⟨hn, htracks, fun hvalid => ?_⟩
      rw [hslot n hmem]
      exact (hrun hvalid).alike hreader (hfills n hmem)
    | done seen =>
      rw [hs] at hf
      refine ⟨hf.1, fun hvalid => ?_⟩
      rw [Holds, ← hreader.audioArray, ← hreader.subArray]
      exact hf.2 hvalid
    | disturbed => trivial

/-! ## What the operations change -/

/-- A call of mpv changes the heap only. -/
theorem perform_call (hd : Option Handle) (f : Api) (s : Reader) :
    (Reader.perform .none (.call hd f) s).2.obj = s.obj ∧
      (Reader.perform .none (.call hd f) s).2.tracks = s.tracks := by
  cases hd with
  | none => exact ⟨rfl, rfl⟩
  | some hd =>
    cases f with
    | getProperty name format =>
      cases format with
      | string =>
        simp only [Reader.perform]
        split <;> exact ⟨rfl, rfl⟩
      | flag | int64 | double => exact ⟨rfl, rfl⟩
    | setOptionString | command | setProperty | waitEvent | clearWakeupCallback
    | detachDestroy => exact ⟨rfl, rfl⟩

/-- No operation of the player changes the track list. -/
theorem perform_tracks (op : Op) (s : Reader) :
    (Reader.perform .none op s).2.tracks = s.tracks := by
  cases op with
  | call hd f => exact (perform_call hd f s).2
  | initWithCString p =>
    simp only [Reader.perform]
    split <;> rfl
  | get | set | lock | unlock | glCall | free | uninitialized | dispatch | deliver
  | inDelegate => rfl

/-- What an operation of a call that fills the arrays leaves alone. -/
theorem perform_frame {op : Op} (hop : trackOk op) (s : Reader) :
    (Reader.perform .none op s).2.obj.mpv = s.obj.mpv ∧
      (Reader.perform .none op s).2.obj.isLoaded = s.obj.isLoaded ∧
      (Reader.perform .none op s).2.obj.isStopEvent = s.obj.isStopEvent ∧
      (Reader.perform .none op s).2.tracks = s.tracks := by
  cases op with
  | set v x =>
    cases v
    case isInitTrack | subArray | audioArray => exact ⟨rfl, rfl, rfl, rfl⟩
    all_goals exact hop.elim
  | call hd f =>
    obtain ⟨hobj, htracks⟩ := perform_call hd f s
    rw [hobj, htracks]
    exact ⟨rfl, rfl, rfl, rfl⟩
  | initWithCString p =>
    simp only [Reader.perform]
    split <;> exact ⟨rfl, rfl, rfl, rfl⟩
  | get | lock | unlock | free | uninitialized => exact ⟨rfl, rfl, rfl, rfl⟩
  | glCall | dispatch | deliver | inDelegate => exact hop.elim

theorem Alike.refl (s : Reader) : Alike s s := ⟨rfl, rfl, rfl, rfl, rfl, rfl, rfl, rfl⟩

theorem perform_alike {op : Op} (hop : callOk op) (s : Reader) :
    Alike s (Reader.perform .none op s).2 := by
  cases op with
  | get | dispatch => exact .refl s
  | set v x =>
    obtain rfl : v = .isManualStop := hop
    exact ⟨rfl, rfl, rfl, rfl, rfl, rfl, rfl, rfl⟩
  | lock | unlock | call | glCall | free | initWithCString | uninitialized | deliver
  | inDelegate => exact hop.elim

/-- What an operation of the thread `n` is answered, and what it changes. -/
inductive State.Performs (s : State) (n : Nat) : (op : Op) → op.Res → State → Prop where
  | finds : s.reader.obj.isInitTrack = false →
    Performs s n (.get .isInitTrack) false
      { s with
        fillers := n :: s.fillers
        fill := s.fill.start n s.reader.tracks s.stage.isLoaded }
  | passes (op : Op) (queue : List Block) (holder : Lock → Option Nat) :
    (op = .get .isInitTrack → s.reader.obj.isInitTrack = true) →
    Performs s n op (Reader.perform .none op s.reader).1
      { s with reader := (Reader.perform .none op s.reader).2, queue := queue, holder := holder }

theorem State.performs {s t : State} {n : Nat} {op : Op} {x : op.Res}
    (h : s.perform n op = some (x, t)) : s.Performs n op x t := by
  unfold State.perform at h
  split at h
  · obtain ⟨rfl, rfl⟩ := Prod.mk.inj (Option.some.inj h)
    unfold State.test
    split
    · rename_i hflag
      exact .passes _ _ _ fun _ => hflag
    · rename_i hflag
      rw [Bool.eq_false_iff.mpr hflag]
      exact .finds (Bool.eq_false_iff.mpr hflag)
  · rename_i l
    split at h
    · obtain ⟨-, rfl⟩ := Prod.mk.inj (Option.some.inj h)
      exact .passes _ _ _ nofun
    · cases h
  · obtain ⟨-, rfl⟩ := Prod.mk.inj (Option.some.inj h)
    exact .passes _ _ _ nofun
  · obtain ⟨-, rfl⟩ := Prod.mk.inj (Option.some.inj h)
    exact .passes _ _ _ nofun
  · rename_i hget _ _ _
    obtain ⟨rfl, rfl⟩ := Prod.mk.inj (Option.some.inj h)
    exact .passes _ _ _ fun hop => absurd hop hget

theorem State.goto_slot_self (s : State) (n : Nat) (p : Core (Option Nat)) :
    (s.goto n p).slot n = { s.slot n with program := p } := by
  simp [State.goto]

theorem State.goto_slot_of_ne (s : State) {m n : Nat} (p : Core (Option Nat)) (h : m ≠ n) :
    (s.goto n p).slot m = s.slot m := by
  simp [State.goto, h]

/-- The arrays are given up. -/
theorem State.Coherent.disturbed {s t : State} {left : List Ivar} (h : s.Coherent left)
    (hstage : t.stage = s.stage) (hobj : t.reader.obj = s.reader.obj)
    (hfill : t.fill = .disturbed) : t.Coherent left := by
  refine h.map hstage (by rw [hobj]) (by rw [hobj]) (by rw [hobj]) (fun _ => .inl hfill) fun _ => ?_
  rw [State.Filled, hfill]
  trivial

theorem Fill.start_cases (n : Nat) (seen : List TrackEntry) (isLoaded : Bool) (fill : Fill) :
    fill.start n seen isLoaded = .disturbed ∨
      fill = .none ∧ isLoaded = true ∧ fill.start n seen isLoaded = .running n seen := by
  cases fill with
  | none => cases isLoaded <;> simp [Fill.start]
  | running | done | disturbed => exact .inl rfl

/-- A thread finds the flag cleared, and begins to fill the arrays if it is the first. -/
theorem State.Coherent.finds {s : State} {left : List Ivar} {n : Nat} {p : Core (Option Nat)}
    (h : s.Coherent left)
    (hp : s.fillers = [] → Loaded s.reader.obj → Valid s.reader.tracks →
      Fills s.reader (s.slot n).method p s.reader.tracks) :
    ({ s with
      fillers := n :: s.fillers
      fill := s.fill.start n s.reader.tracks s.stage.isLoaded }.goto n p).Coherent left := by
  rcases Fill.start_cases n s.reader.tracks s.stage.isLoaded s.fill with
    hstart | ⟨hnone, hisLoaded, hstart⟩
  · exact h.disturbed rfl rfl hstart
  unfold State.Coherent at h ⊢
  simp only [State.goto]
  cases hs : s.stage with
  | idle | started =>
    rw [hs] at hisLoaded
    cases hisLoaded
  | loaded | ready =>
    rw [hs] at h
    obtain ⟨hreadable, hfilled⟩ := h
    rw [State.Filled, hnone] at hfilled
    obtain ⟨hfillers, hclears⟩ := hfilled
    rw [hs] at hstart
    refine ⟨hreadable, ?_⟩
    rw [State.Filled, hstart]
    refine ⟨congrArg (n :: ·) hfillers, rfl, fun hvalid => ?_⟩
    simp only [Function.update_self]
    exact hp hfillers (loaded_of_clears hreadable hclears) hvalid

/-- A thread that fills the arrays goes on. -/
theorem State.Coherent.fills {s t : State} {left : List Ivar} {n : Nat} {op : Op}
    {k : op.Res → Core (Option Nat)} {x : op.Res} (h : s.Coherent left) (hn : n ∈ s.fillers)
    (hop : trackOk op) (hprogram : (s.slot n).program = .act op k)
    (hperform : s.Performs n op x t) : (t.goto n (k x)).Coherent left := by
  have hne : s.fillers ≠ [] := List.ne_nil_of_mem hn
  cases hperform with
  | finds hflag => exact h.finds fun hnil => absurd hnil hne
  | passes op queue holder hpass =>
    obtain ⟨hmpv, hisLoaded, hisStopEvent, htracks⟩ := perform_frame hop s.reader
    refine h.map rfl hmpv hisLoaded hisStopEvent (fun hc => ?_) fun hf => ?_
    · exact .inl (hc.resolve_right fun hnone => hne hnone.2.1)
    · unfold State.Filled at hf ⊢
      simp only [State.goto]
      cases hfill : s.fill with
      | none | done =>
        rw [hfill] at hf
        exact absurd hf.1 hne
      | running m seen =>
        rw [hfill] at hf
        obtain ⟨hm, hseen, hrun⟩ := hf
        obtain rfl : n = m := by simpa [hm] using hn
        refine ⟨hm, htracks.trans hseen, fun hvalid => ?_⟩
        have hact := hrun hvalid
        rw [hprogram] at hact
        simp only [Function.update_self]
        exact hact
      | disturbed => trivial

/-! ## Steps of the threads -/

/-- A thread is at another point of its call, where nothing else changes that matters. -/
theorem Sound.goto {s t : State} {n : Nat} {p : Core (Option Nat)} (h : Sound s)
    (hmpv : t.reader.obj.mpv = s.reader.obj.mpv) (hslot : t.slot = s.slot)
    (hworker : t.worker = s.worker) (hstage : t.stage = s.stage) (hevent : t.event = s.event)
    (hfillers : ∀ m, m ≠ n → (m ∈ t.fillers ↔ m ∈ s.fillers))
    (hquiet : n ∉ t.fillers → Quiet (s.slot n).method p)
    (hfills : n ∈ t.fillers → Only trackOk p)
    (hcoherent : ∀ left, s.Coherent left → (t.goto n p).Coherent left) :
    Sound (t.goto n p) where
  mpv := hmpv ▸ h.mpv
  quiet m hm := by
    by_cases hmn : m = n
    · subst hmn
      rw [State.goto_slot_self, hslot]
      exact hquiet hm
    · rw [State.goto_slot_of_ne _ _ hmn, hslot]
      exact h.quiet m fun hmem => hm ((hfillers m hmn).mpr hmem)
  fills m hm := by
    by_cases hmn : m = n
    · subst hmn
      rw [State.goto_slot_self]
      exact hfills hm
    · rw [State.goto_slot_of_ne _ _ hmn, hslot]
      exact h.fills m ((hfillers m hmn).mp hm)
  work := by
    obtain ⟨left, hworks, hleft, hc⟩ := h.work
    refine ⟨left, hworker ▸ hworks, fun hne => ?_, hcoherent left hc⟩
    exact ⟨hstage.trans (hleft hne).1, hevent.trans (hleft hne).2⟩

theorem Sound.runFiller {s t : State} {n : Nat} {op : Op} {k : op.Res → Core (Option Nat)}
    {x : op.Res} (h : Sound s) (hn : n ∈ s.fillers) (hprogram : (s.slot n).program = .act op k)
    (hperform : s.Performs n op x t) : Sound (t.goto n (k x)) := by
  have honly := h.fills n hn
  rw [hprogram] at honly
  obtain ⟨hop, hrest⟩ := honly
  have hcoherent (left : List Ivar) (hc : s.Coherent left) : (t.goto n (k x)).Coherent left :=
    hc.fills hn hop hprogram hperform
  cases hperform with
  | finds hflag =>
    refine h.goto rfl rfl rfl rfl rfl (fun m hm => ?_) (fun hmem => ?_) (fun _ => hrest _) hcoherent
    · simp [hm]
    · exact absurd List.mem_cons_self hmem
  | passes op queue holder hpass =>
    exact h.goto (perform_frame hop s.reader).1 rfl rfl rfl rfl (fun _ _ => Iff.rfl)
      (fun hmem => absurd hn hmem) (fun _ => hrest _) hcoherent

/-- A thread that has not found the flag cleared does nothing that matters, but to find it. -/
theorem Sound.runQuiet {s t : State} {n : Nat} {op : Op} {k : op.Res → Core (Option Nat)}
    {x : op.Res} (h : Sound s) (hn : n ∉ s.fillers) (hprogram : (s.slot n).program = .act op k)
    (hperform : s.Performs n op x t) : Sound (t.goto n (k x)) := by
  have hgoto {queue : List Block} {holder : Lock → Option Nat}
      (halike : Alike s.reader (Reader.perform .none op s.reader).2)
      (hrest : Quiet (s.slot n).method (k (Reader.perform .none op s.reader).1)) :
      Sound ({ s with
        reader := (Reader.perform .none op s.reader).2
        queue := queue
        holder := holder }.goto n (k (Reader.perform .none op s.reader).1)) := by
    refine h.goto halike.mpv.symm rfl rfl rfl rfl (fun _ _ => Iff.rfl) (fun _ => hrest)
      (fun hmem => absurd hmem hn) fun left hc => ?_
    refine hc.alike h.fills rfl rfl rfl halike fun m hm => ?_
    exact State.goto_slot_of_ne _ _ fun hmn => hn (hmn ▸ hm)
  have hquiet := h.quiet n hn
  rw [hprogram] at hquiet
  generalize hp : Program.act op k = p at hquiet
  cases hquiet with
  | returned value => cases hp
  | called hm =>
    obtain ⟨f, hbody, hrest, -⟩ := Method.body_of_counts hm
    obtain ⟨rfl, hk⟩ := Program.act.inj (hp.trans hbody)
    obtain rfl := eq_of_heq hk
    cases hperform with
    | finds hflag =>
      have honly : Only trackOk (k false) := (hbody ▸ Method.body_trackOk hm).2 false
      refine h.goto rfl rfl rfl rfl rfl (fun m hmn => by simp [hmn])
        (fun hmem => absurd List.mem_cons_self hmem) (fun _ => honly) fun left hc => ?_
      refine hc.finds fun _ hloaded hvalid => ?_
      have hfills := fills_body hloaded hvalid hm
      rw [hbody, Fills, run_act, perform_get] at hfills
      simpa only [Fills, Object.get, hflag] using hfills
    | passes op queue holder hpass =>
      refine hgoto (.refl _) ?_
      rw [perform_get, Object.get, hpass rfl, hrest]
      exact .tested
  | tested =>
    have hread {v : Ivar} {f : v.type → Core (Option Nat)} (hv : v ≠ .isInitTrack)
        (hact : Program.act op k = .act (.get v) f) (hret : ∀ a, ∃ value, f a = .ret value) :
        Sound (t.goto n (k x)) := by
      obtain ⟨rfl, hk⟩ := Program.act.inj hact
      obtain rfl := eq_of_heq hk
      cases hperform with
      | finds hflag => exact absurd rfl hv
      | passes op queue holder hpass =>
        refine hgoto (.refl _) ?_
        obtain ⟨value, hvalue⟩ := hret (s.reader.obj.get v)
        rw [perform_get, hvalue]
        exact .returned value
    cases hm : (s.slot n).method with
    | audioCount =>
      rw [hm] at hp
      exact hread (by decide) hp fun a => ⟨_, rfl⟩
    | subtitleCount =>
      rw [hm] at hp
      exact hread (by decide) hp fun a => ⟨_, rfl⟩
    | «open» | addSubtitle | addAudio | initTrackList | wakeup =>
      rw [hm] at hp
      cases hp
  | other hm honly =>
    subst hp
    cases hperform with
    | finds hflag => exact absurd rfl honly.1
    | passes op queue holder hpass =>
      exact hgoto (perform_alike honly.1 s.reader) (.other hm (honly.2 _))

/-- The call of the thread `n` has returned. -/
theorem State.Coherent.finish {s : State} {left : List Ivar} {n : Nat} {value : Option Nat}
    (h : (s.goto n (.ret value)).Coherent left) :
    ((s.finish n value).goto n (.ret value)).Coherent left := by
  have hnil (hfillers : s.fillers = []) : s.fillers.filter (· ≠ n) = [] := by
    rw [hfillers]
    rfl
  refine h.map rfl rfl rfl rfl (fun hc => ?_) fun hf => ?_
  · refine hc.imp (fun hfill => ?_) fun hnone => ⟨?_, hnil hnone.2.1, hnone.2.2⟩
    · exact congrArg (Fill.finish n) hfill
    · exact congrArg (Fill.finish n) hnone.1
  · unfold State.Filled at hf ⊢
    simp only [State.goto, State.finish] at hf ⊢
    cases hfill : s.fill with
    | none | done =>
      rw [hfill] at hf
      exact ⟨hnil hf.1, hf.2⟩
    | running m seen =>
      rw [hfill] at hf
      obtain ⟨hfillers, htracks, hrun⟩ := hf
      by_cases hmn : m = n
      · subst hmn
        simp only [Fill.finish, if_true]
        refine ⟨by simp [hfillers], fun hvalid => ?_⟩
        have hholds := (hrun hvalid).2
        rw [Function.update_self] at hholds
        exact hholds
      · simp only [Fill.finish, if_neg hmn]
        exact ⟨by simp [hfillers, hmn], htracks, hrun⟩
    | disturbed => trivial

/-- A thread is at the next point of its call, or has returned. -/
theorem Sound.resume {s : State} {n : Nat} {p : Core (Option Nat)} (h : Sound (s.goto n p))
    (hbusy : ∀ m ∈ s.fillers, m ≠ n → (s.slot m).program.done = false) : Inv (s.resume n p) := by
  have hother (m : Nat) (hm : m ∈ s.fillers) (hmn : m ≠ n) :
      ((s.goto n p).slot m).program.done = false := by
    rw [State.goto_slot_of_ne _ _ hmn]
    exact hbusy m hm hmn
  cases p with
  | act op k =>
    refine ⟨h, fun m hm => ?_⟩
    by_cases hmn : m = n
    · subst hmn
      rw [State.resume, State.goto_slot_self]
      rfl
    · exact hother m hm hmn
  | ret value =>
    have hmem {m : Nat} (hm : m ∈ s.fillers.filter (· ≠ n)) : m ∈ s.fillers ∧ m ≠ n := by
      simpa using hm
    refine ⟨⟨h.mpv, fun m hm => ?_, fun m hm => h.fills m (hmem hm).1, ?_⟩,
      fun m hm => hother m (hmem hm).1 (hmem hm).2⟩
    · by_cases hmn : m = n
      · subst hmn
        rw [State.resume, State.goto_slot_self]
        exact .returned value
      · exact h.quiet m fun hmem => hm (List.mem_filter.mpr ⟨hmem, by simpa using hmn⟩)
    · obtain ⟨left, hworks, hleft, hc⟩ := h.work
      exact ⟨left, hworks, hleft, hc.finish⟩

theorem Inv.runCaller {s s' : State} {n : Nat} (h : Inv s) (hs : s.runCaller n = some s') :
    Inv s' := by
  unfold State.runCaller at hs
  split at hs
  · cases hs
  · rename_i op k hprogram
    obtain ⟨⟨x, t⟩, hperform, rfl⟩ := Option.map_eq_some_iff.mp hs
    have hperforms := State.performs hperform
    refine Sound.resume ?_ fun m hm hmn => ?_
    · by_cases hn : n ∈ s.fillers
      · exact h.toSound.runFiller hn hprogram hperforms
      · exact h.toSound.runQuiet hn hprogram hperforms
    · cases hperforms with
      | finds hflag => exact h.busy m ((List.mem_cons.mp hm).resolve_left hmn)
      | passes op queue holder hpass => exact h.busy m hm

/-- What a thread reads for the arrays changes while it fills them. -/
theorem Inv.disturb {s : State} {reader : Reader} (h : Inv s) (hobj : reader.obj = s.reader.obj) :
    Inv { s with reader := reader, fill := s.fill.disturb } := by
  refine ⟨⟨hobj ▸ h.mpv, h.quiet, h.fills, ?_⟩, h.busy⟩
  obtain ⟨left, hworks, hleft, hc⟩ := h.work
  refine ⟨left, hworks, hleft, ?_⟩
  -- the arrays depend on the object only, unless a thread fills them
  have hkeep (hfill : s.fill.disturb = s.fill)
      (hrunning : ∀ n seen, s.fill ≠ .running n seen) :
      { s with reader := reader, fill := s.fill.disturb }.Coherent left := by
    refine hc.map rfl (by rw [hobj]) (by rw [hobj]) (by rw [hobj]) (fun hcleared => ?_) fun hf => ?_
    · simp only [State.Cleared, hfill, hobj]
      exact hcleared
    · unfold State.Filled at hf ⊢
      simp only [hobj, hfill]
      cases hs : s.fill with
      | running n seen => exact absurd hs (hrunning n seen)
      | none | done | disturbed =>
        rw [hs] at hf
        exact hf
  cases hfill : s.fill with
  | running n seen => exact hfill ▸ hc.disturbed rfl hobj (by rw [hfill]; rfl)
  | none | done | disturbed => exact hfill ▸ hkeep (by rw [hfill]; rfl) (by rw [hfill]; nofun)

theorem Inv.call {s : State} {n : Nat} (h : Inv s) (hfree : s.free n = true) (m : Method) :
    Inv { s with slot := Function.update s.slot n ⟨m, m.body⟩ } := by
  have hn : n ∉ s.fillers := by
    intro hmem
    rw [State.free, h.busy n hmem] at hfree
    cases hfree
  have hslot {i : Nat} (hi : i ∈ s.fillers) :
      Function.update s.slot n ⟨m, m.body⟩ i = s.slot i := by
    apply Function.update_of_ne
    rintro rfl
    exact hn hi
  refine ⟨⟨h.mpv, fun i hi => ?_, fun i hi => ?_, ?_⟩, fun i hi => ?_⟩
  · simp only [Function.update_apply]
    split
    · exact quiet_body m
    · exact h.quiet i hi
  · simp only [hslot hi]
    exact h.fills i hi
  · obtain ⟨left, hworks, hleft, hc⟩ := h.work
    exact ⟨left, hworks, hleft, hc.alike h.fills rfl rfl rfl (.refl _) fun i hi => hslot hi⟩
  · simp only [hslot hi]
    exact h.busy i hi

end Cache
