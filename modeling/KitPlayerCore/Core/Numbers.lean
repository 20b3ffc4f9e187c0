-- SUMMARY: What the getters of a double return, and when that depends on a variable that was never assigned.
import KitPlayerCore.Core.Status
import KitPlayerCore.Mpv.Property

/-!
# Numbers

The getters of a double pass the address of a local variable to mpv and return the variable,
whatever the status was. mpv leaves the variable alone where it fails, and `isLoaded` stays
set after the end of an item, where the properties are no longer available.
-/

namespace Core

open Mpv Transition

/-! ## Running a getter -/

/-- What a getter finds. Only its local variable is not part of it. -/
structure Player where
  obj : Object
  /-- The core of mpv is initialized. -/
  initialized : Bool := true
  property : CString → Property

/-- The effect of an operation, where a local variable holds `garbage` until it is assigned. -/
def Player.perform (garbage : Float) : (op : Op) → Player → op.Res × Player
  | .uninitialized, s => (garbage, s)
  | .call (some _) (.getProperty name .double), s => (reported s.initialized (s.property name), s)
  | op, s =>
    ((Record.perform op ⟨s.obj, []⟩).1, { s with obj := (Record.perform op ⟨s.obj, []⟩).2.obj })

/-- The getters of a double. -/
inductive Number where
  | duration | currentTime | remainTime | width | height
  deriving DecidableEq, Repr

def Number.body : Number → Core Float
  | .duration => Core.duration
  | .currentTime => Core.currentTime
  | .remainTime => Core.remainTime
  | .width => Core.width
  | .height => Core.height

/-- The property that the getter reads. -/
def Number.key : Number → String
  | .duration => "duration"
  | .currentTime => "time-pos"
  | .remainTime => "time-remaining"
  | .width => "width"
  | .height => "height"

/-- What the getter returns. -/
def Number.value (n : Number) (s : Player) (garbage : Float) : Float :=
  (n.body.run (Player.perform garbage) s).1

/-- What `isLive` returns. -/
def live (s : Player) (garbage : Float) : Bool := (isLive.run (Player.perform garbage) s).1

/-- The status that mpv reports for the property of the getter. -/
def Number.status (n : Number) (s : Player) : Int :=
  (getPropertyDouble s.initialized (s.property (cstr n.key)) 0).1

/-- The getters depend on the object and on mpv only, and what is unavailable reads as 0. -/
structure OnlyState (s : Player) : Prop where
  value : ∀ (n : Number) x y, n.value s x = n.value s y
  live : ∀ x y, Core.live s x = Core.live s y
  unavailable : ∀ n : Number, n.status s = errorPropertyUnavailable → ∀ x, n.value s x = 0
  unavailableLive : Number.duration.status s = errorPropertyUnavailable → ∀ x, Core.live s x = true

/-- A getter returns before it asks mpv, or mpv reports all that is asked for. -/
def Answered (s : Player) : Prop :=
  s.obj.mpv = none ∨ s.obj.isLoaded = false ∨ ∀ n : Number, n.status s = 0

/-! ## What comes out of it -/

variable {s : Player} {n : Number}

section perform

variable (garbage : Float) (s : Player)

@[simp] theorem player_get (v : Ivar) : Player.perform garbage (.get v) s = (s.obj.get v, s) := rfl

@[simp] theorem player_lock (l : Lock) : Player.perform garbage (.lock l) s = ((), s) := rfl

@[simp] theorem player_unlock (l : Lock) : Player.perform garbage (.unlock l) s = ((), s) := rfl

@[simp] theorem player_uninitialized : Player.perform garbage .uninitialized s = (garbage, s) := rfl

theorem player_getProperty {h : Option Handle} (hh : h ≠ none) (name : CString) :
    Player.perform garbage (.call h (.getProperty name .double)) s =
      (reported s.initialized (s.property name), s) := by
  obtain ⟨h, rfl⟩ := Option.ne_none_iff_exists'.mp hh
  rfl

end perform

theorem Number.body_eq (n : Number) : n.body = doubleGetter n.key := by cases n <;> rfl

theorem value_of_unloaded (h : s.obj.mpv = none ∨ s.obj.isLoaded = false) (garbage : Float) :
    n.value s garbage = 0 := by
  rw [Number.value, Number.body_eq]
  rcases h with h | h
  · simp [doubleGetter, Object.get, h]
  · cases hmpv : s.obj.mpv <;> simp [doubleGetter, Object.get, h, hmpv]

/-- Past its tests a getter returns what the variable holds after the call of mpv. -/
theorem value_of_loaded (hmpv : s.obj.mpv ≠ none) (hloaded : s.obj.isLoaded = true)
    (garbage : Float) :
    n.value s garbage =
      (getPropertyDouble s.initialized (s.property (cstr n.key)) garbage).2 := by
  rw [Number.value, Number.body_eq, ← reported_getD]
  simp [doubleGetter, Object.get, hloaded, hmpv, player_getProperty _ _ hmpv]

theorem live_eq (garbage : Float) :
    live s garbage = decide (Number.duration.value s garbage < 120) := by
  rw [live, isLive, Program.run_bind]
  rfl

/-- Where mpv reports the property, the variable is overwritten. -/
theorem value_of_status (hmpv : s.obj.mpv ≠ none) (hloaded : s.obj.isLoaded = true)
    (hstatus : n.status s = 0) (x y : Float) : n.value s x = n.value s y := by
  rw [value_of_loaded hmpv hloaded, value_of_loaded hmpv hloaded]
  rcases getPropertyDouble_cases s.initialized (s.property (cstr n.key)) with ⟨v, h⟩ | ⟨e, he, h⟩
  · rw [h, h]
  · rw [Number.status, h] at hstatus
    omega

/-- Where mpv reports an error, the getter returns what the variable has held before. -/
theorem value_of_error (hmpv : s.obj.mpv ≠ none) (hloaded : s.obj.isLoaded = true)
    (hstatus : n.status s ≠ 0) (garbage : Float) : n.value s garbage = garbage := by
  rw [value_of_loaded hmpv hloaded]
  rcases getPropertyDouble_cases s.initialized (s.property (cstr n.key)) with ⟨v, h⟩ | ⟨e, he, h⟩
  · rw [Number.status, h] at hstatus
    exact absurd rfl hstatus
  · rw [h]

theorem OnlyState.of_value (h : ∀ (n : Number) x y, n.value s x = n.value s y)
    (hzero : ∀ n : Number, n.status s = errorPropertyUnavailable → ∀ x, n.value s x = 0) :
    OnlyState s where
  value := h
  live x y := by rw [live_eq, live_eq, h]
  unavailable := hzero
  unavailableLive hstatus x := by
    rw [live_eq, hzero .duration hstatus]
    decide

/-- The getters depend on nothing else exactly if mpv reports what they ask it for. -/
theorem onlyState_iff (s : Player) : OnlyState s ↔ Answered s := by
  by_cases hguard : s.obj.mpv = none ∨ s.obj.isLoaded = false
  · have hzero (n : Number) (x : Float) : n.value s x = 0 := value_of_unloaded hguard x
    have hanswered : Answered s := hguard.imp_right .inl
    exact iff_of_true (.of_value (fun n x y => by rw [hzero, hzero]) fun n _ => hzero n) hanswered
  obtain ⟨hmpv, hunloaded⟩ := not_or.mp hguard
  have hloaded : s.obj.isLoaded = true := by simpa using hunloaded
  constructor
  · intro h
    refine .inr (.inr fun n => ?_)
    by_contra hstatus
    have hsame := h.value n 0 1
    rw [value_of_error hmpv hloaded hstatus, value_of_error hmpv hloaded hstatus] at hsame
    exact absurd hsame (by decide)
  · intro h
    have hstatus (n : Number) : n.status s = 0 := (h.resolve_left hmpv).resolve_left hunloaded n
    refine .of_value (fun n => value_of_status hmpv hloaded (hstatus n)) fun n hunavailable => ?_
    rw [hstatus n] at hunavailable
    cases hunavailable

/-- An item that was ready has ended, and mpv has no duration. -/
theorem not_onlyState_after_endFile :
    ¬ ∀ (h : Handle) (is : List Input) (property : CString → Property),
      OnlyState { obj := (Record.inputs { obj := { mpv := some h } } is).obj, property } := by
  intro h
  let is : List Input := [.event ⟨.startFile, .none⟩, .event ⟨.playbackRestart, .none⟩,
    .event ⟨.endFile, .endFile .eof 0⟩]
  have hsame := (h 1 is fun _ => { node := .unavailable }).value .duration 0 1
  have hmpv : (Record.inputs { obj := { mpv := some 1 } } is).obj.mpv ≠ none := nofun
  rw [value_of_error hmpv rfl (by decide), value_of_error hmpv rfl (by decide)] at hsame
  exact absurd hsame (by decide)

end Core
