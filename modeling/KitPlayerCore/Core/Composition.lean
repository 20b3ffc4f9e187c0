-- SUMMARY: What the getters and the setters are composed of: six getters that lock `parLock`, and `setParameter`.
import KitPlayerCore.Core.Interface

/-!
# Composition

Six getters lock `parLock` and ask mpv. The others call these six, one after the other, and
do little else. So what holds of the six, and of the few other statements, holds of every
getter. The setters keep a value, and set a parameter of mpv.
-/

namespace Core

open Mpv Transition Program

/-- The getters that lock `parLock`: those of a double, and `getParameterStr:`. -/
inductive Primitive where
  | double (name : String)
  | string (key : NSString)
  deriving DecidableEq, Repr

@[reducible] def Primitive.Res : Primitive → Type
  | .double _ => Float
  | .string _ => Option NSString

def Primitive.body : (g : Primitive) → Core g.Res
  | .double name => doubleGetter name
  | .string key => getParameterStr key

/-- What the six getters do. -/
def primitiveOk : Op → Prop
  | .get v => v ∈ [Ivar.mpv, .isLoaded, .isStopEvent]
  | .call _ (.getProperty _ _) => True
  | .lock l | .unlock l => l = .parLock
  | .free _ | .initWithCString _ | .uninitialized => True
  | _ => False

theorem Primitive.only (g : Primitive) : Only primitiveOk g.body := by
  cases g with
  | double name => simp [Primitive.body, doubleGetter, primitiveOk]
  | string key =>
    simp [Primitive.body, Core.getParameterStr, primitiveOk]
    intro _ _ r
    cases r <;> simp [primitiveOk]

/-- The program calls the six getters, and performs only operations that are `ok` besides. -/
inductive Composed (ok : Op → Prop) {α : Type} : Core α → Prop where
  | ret (a : α) : Composed ok (.ret a)
  | act {op : Op} {k : op.Res → Core α} : ok op → (∀ r, Composed ok (k r)) →
      Composed ok (.act op k)
  | getter (g : Primitive) {f : g.Res → Core α} : (∀ r, Composed ok (f r)) →
      Composed ok (g.body >>= f)

namespace Composed

variable {ok ok' : Op → Prop} {α β : Type} {p : Core α}

theorem mono (h : Composed ok p) (hok : ∀ op, ok op → ok' op) : Composed ok' p := by
  induction h with
  | ret a => exact .ret a
  | act hop _ ih => exact .act (hok _ hop) ih
  | getter g _ ih => exact .getter g ih

theorem bind {f : α → Core β} (hp : Composed ok p) (hf : ∀ a, Composed ok (f a)) :
    Composed ok (p >>= f) := by
  induction hp with
  | ret a => exact hf a
  | act hop _ ih => exact .act hop ih
  | getter g _ ih => exact bind_assoc g.body _ f ▸ .getter g ih

theorem of_only (h : Only ok p) : Composed ok p := by
  induction p with
  | ret a => exact .ret a
  | act op k ih => exact .act h.1 fun r => ih r (h.2 r)

/-- One of the six, and what is done with its value. -/
theorem of_body (g : Primitive) : Composed ok g.body :=
  (bind_ret g.body) ▸ .getter g .ret

/-- What holds of the operations of the six getters and of the others holds of all. -/
theorem only (h : Composed ok p) (hok : ∀ op, ok op → ok' op)
    (hg : ∀ g : Primitive, Only ok' g.body) : Only ok' p := by
  induction h with
  | ret a => trivial
  | act hop _ ih => exact ⟨hok _ hop, ih⟩
  | getter g _ ih => exact (hg g).bind ih

/-- A program that is composed of safe parts is safe. -/
theorem safe {M : Type*} {R : Rules Op Op.Res M} {I : M → Prop} {m : M} (h : Composed ok p)
    (hm : I m) (hok : ∀ m op, I m → ok op → R.ok m op ∧ ∀ r m', R.next m op r m' → I m')
    (hg : ∀ (g : Primitive) m, I m → Safe R g.body (fun _ m' => I m') m) :
    Safe R p (fun _ m' => I m') m := by
  induction h generalizing m with
  | ret a => exact hm
  | act hop _ ih =>
    obtain ⟨hop, hstay⟩ := hok m _ hm hop
    exact ⟨hop, fun r _ m' hnext => ih r (hstay r m' hnext)⟩
  | getter g _ ih => exact (hg g m hm).bind fun r m' => ih r

/-- A program that begins with an operation performs one that is `ok`, or calls one of the six. -/
theorem act_cases {op : Op} {k : op.Res → Core α} (h : Composed ok (.act op k)) :
    (ok op ∧ ∀ r, Composed ok (k r)) ∨
      ∃ (g : Primitive) (f : g.Res → Core α),
        .act op k = g.body >>= f ∧ ∀ r, Composed ok (f r) := by
  generalize hp : (.act op k : Core α) = p at h
  cases h with
  | ret a => cases hp
  | act hop hk =>
    cases hp
    exact .inl ⟨hop, hk⟩
  | getter g hf => exact .inr ⟨g, _, rfl, hf⟩

end Composed

/-! ## The getters -/

/-- The getters that count no tracks. -/
def Getter.Plain : Getter → Prop
  | .audioCount | .subtitleCount | .initTrackList => False
  | _ => True

/-- What the getters that count tracks do besides. -/
def cacheOk : Op → Prop
  | .get .isInitTrack | .get .subArray | .get .audioArray => True
  | .set .isInitTrack x => x = true
  | .set .subArray _ | .set .audioArray _ => True
  | _ => False

section getters

variable {ok : Op → Prop}

theorem doubleGetter_composed (name : String) : Composed ok (doubleGetter name) :=
  .of_body (.double name)

theorem getParameterStr_composed (key : NSString) : Composed ok (getParameterStr key) :=
  .of_body (.string key)

theorem intGetter_composed (key : NSString) : Composed ok (intGetter key) :=
  (getParameterStr_composed key).bind fun _ => .ret _

theorem Getter.Plain.composed {g : Getter} (hg : g.Plain) : Composed ok g.read := by
  have hstr (key : NSString) : Composed ok (Core.getParameterStr key) :=
    getParameterStr_composed key
  have hdouble (name : String) : Composed ok (doubleGetter name) := doubleGetter_composed name
  cases g
  case audioCount | subtitleCount | initTrackList => exact hg.elim
  case duration | currentTime | remainTime | width | height =>
    exact (hdouble _).bind fun _ => .ret _
  case widthInt | heightInt => exact (intGetter_composed _).bind fun _ => .ret _
  case isHDR | isPlay | isMute | audioSpeed =>
    exact ((hstr _).bind fun _ => .ret _).bind fun _ => .ret _
  case isLive => exact ((hdouble _).bind fun _ => .ret _).bind fun _ => .ret _
  case fps =>
    refine Composed.bind ((hstr _).bind fun s => ?_) fun _ => .ret _
    split
    · exact (hstr _).bind fun _ => .ret _
    · exact .ret _
  all_goals exact (hstr _).bind fun _ => .ret _

end getters

/-! ## Counting tracks -/

theorem unlessNil_composed {ok : Op → Prop} {p : Core (Option NSString)} {f : NSString → Core Bool}
    (hp : Composed ok p) (hf : ∀ s, Composed ok (f s)) : Composed ok (unlessNil p f) :=
  hp.bind fun s => match s with
    | none => .ret _
    | some s => hf s

theorem readTrack_composed (i : Nat) : Composed cacheOk (readTrack i) := by
  iterate 7
    refine unlessNil_composed (getParameterStr_composed _) fun _ => ?_
  refine .of_only ?_
  simp only [addTrack]
  split
  · simp [cacheOk]
  split <;> simp [cacheOk]

theorem readTracks_composed (i n : Nat) : Composed cacheOk (readTracks i n) := by
  induction n generalizing i with
  | zero => exact .ret _
  | succ n ih =>
    refine (readTrack_composed i).bind fun ok => ?_
    cases ok with
    | false => exact .ret _
    | true => exact ih (i + 1)

theorem initTrackList_composed : Composed cacheOk initTrackList := by
  refine .act trivial fun isInitTrack => ?_
  cases isInitTrack with
  | true => exact .ret _
  | false =>
    exact .act rfl fun _ => (intGetter_composed _).bind fun n => readTracks_composed 0 n.toNat

theorem Getter.composed (g : Getter) : Composed cacheOk g.read := by
  by_cases hg : g.Plain
  · exact Getter.Plain.composed hg
  cases g
  case audioCount | subtitleCount =>
    refine Composed.bind (initTrackList_composed.bind fun ok => ?_) fun _ => .ret _
    cases ok with
    | false => exact .ret _
    | true => exact .act trivial fun _ => .ret _
  case initTrackList => exact initTrackList_composed.bind fun _ => .ret _
  all_goals exact absurd trivial hg

theorem Getter.body_composed (g : Getter) : Composed cacheOk g.body :=
  g.body_eq ▸ g.composed.bind fun _ => .ret _

/-! ## The setters -/

/-- The instance variables that the setters keep a value in. -/
def Ivar.isSetting : Ivar → Bool
  | .isMemoryCache | .isProbeInfo | .isAutoSoft | .isHardDecoding | .resumeTime => true
  | _ => false

/-- The program keeps values, and sets parameters. -/
inductive Assigned : Core Unit → Prop where
  | ret : Assigned (.ret ())
  | set {v : Ivar} (x : v.type) {p : Core Unit} : v.isSetting → Assigned p →
      Assigned (.act (.set v x) fun _ => p)
  | param (key : NSString) (value : Value) {p : Core Unit} : Assigned p →
      Assigned (setParameter key value >>= fun _ => p)

namespace Assigned

variable {p : Core Unit}

theorem only {ok : Op → Prop} (h : Assigned p)
    (hset : ∀ (v : Ivar) (x : v.type), v.isSetting → ok (.set v x))
    (hparam : ∀ key value, Only ok (setParameter key value)) : Only ok p := by
  induction h with
  | ret => trivial
  | set x hv _ ih => exact ⟨hset _ x hv, fun _ => ih⟩
  | param key value _ ih => exact (hparam key value).bind fun _ => ih

/-- A setter is safe if keeping values is, and setting parameters. -/
theorem safe {M : Type*} {R : Rules Op Op.Res M} {m : M} (h : Assigned p)
    (hset : ∀ (v : Ivar) (x : v.type), v.isSetting →
      R.ok m (.set v x) ∧ ∀ m', R.next m (.set v x) () m' → m' = m)
    (hparam : ∀ key value, Safe R (setParameter key value) (fun _ m' => m' = m) m) :
    Safe R p (fun _ m' => m' = m) m := by
  induction h with
  | ret => rfl
  | set x hv _ ih =>
    obtain ⟨hok, hstay⟩ := hset _ x hv
    exact ⟨hok, fun _ _ m' hnext => hstay m' hnext ▸ ih⟩
  | param key value _ ih =>
    exact (hparam key value).bind fun _ m' hm => by
      subst hm
      exact ih

end Assigned

theorem setParameter_assigned (key : NSString) (value : Value) :
    Assigned (setParameter key value) :=
  (bind_ret (setParameter key value)) ▸ .param key value .ret

theorem Setter.assigned (s : Setter) : Assigned s.body := by
  have hset (key : NSString) (value : Value) : Assigned (setParameter key value) :=
    setParameter_assigned key value
  cases s
  case setIsMemoryCache | setIsProbeInfo | setIsAutoSoft | setResumeTime =>
    exact .set _ rfl (hset _ _)
  case setIsHardDecoding b => cases b with
    | false => exact .set _ rfl (hset _ _)
    | true => exact .set _ rfl (.param _ _ (hset _ _))
  case setIsNoAudio b | setIsNoSub b => cases b with
    | false => exact .ret
    | true => exact hset _ _
  all_goals exact hset _ _

end Core
