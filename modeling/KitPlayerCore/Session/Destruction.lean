-- SUMMARY: That the handle is torn down once and in order, however many calls of `shutDown` meet, and that each returns after it.
import KitPlayerCore.Core.Effects
import KitPlayerCore.Session.Machine

/-!
# Destruction

`shutDown` may be called by any number of threads, and by the delegate. The first call
that takes `shutdownLock` finds `mpv` set, tears the handle down and sets `mpv` to null
before it unlocks. The others find it null.
-/

namespace Destruction

open Core Mpv Transition Program Session

/-! ## The teardown -/

/-- What `shutDown` does to mpv. -/
inductive Act where
  | wakeupCleared (h : Option Handle)
  | updateCleared
  | uninitialized
  | destroyed (h : Option Handle)
  deriving DecidableEq, Repr

/-- The teardown of the handle, in its order. -/
def teardown (h : Handle) : List Act :=
  [.wakeupCleared (some h), .updateCleared, .uninitialized, .destroyed (some h)]

/-- The part of a teardown that the operation is. -/
@[simp] def act : Op → Option Act
  | .call h .clearWakeupCallback => some (.wakeupCleared h)
  | .glCall .clearUpdateCallback => some .updateCleared
  | .glCall .uninitGl => some .uninitialized
  | .call h .detachDestroy => some (.destroyed h)
  | _ => none

/-- A session, with a record of its teardown and of its calls. -/
structure State where
  session : Session.State
  log : List Act := []
  /-- The call that the thread made last, if no callback came after it. -/
  last : Thread → Option Call := fun _ => none

def State.record (s : State) : Label → State
  | .call n c => { s with last := Function.update s.last (.caller n) (some c) }
  | .wakeup n => { s with last := Function.update s.last (.caller n) none }
  | .run t a =>
    match s.session.program t with
    | .ret _ => s
    | .act .inDelegate _ => { s with last := Function.update s.last t a.delegate }
    | .act op _ => { s with log := s.log ++ (act op).toList }
  | .take | .again => s

def step (s : State) (l : Label) : Option State :=
  (Session.step s.session l).map fun t => { s.record l with session := t }

/-- The sessions after one successful `initView`, which made the handle `h`. -/
def destruction (h : Handle) : Machine State Label where
  init s := ∃ o, s = { session := .afterInitView h o }
  step := step

/-- The thread is in no call: it has come to its end, or the delegate is in control. -/
def returned : Core Bool → Bool
  | .ret _ => true
  | .act .inDelegate _ => true
  | .act _ _ => false

/-- The teardown of `h` happens once and in order, and no call of `shutDown` returns before. -/
structure TornDownOnce (h : Handle) (s : State) : Prop where
  /-- What was done so far is a beginning of the teardown. -/
  ordered : s.log <+: teardown h
  once : s.log.Nodup
  /-- Where a call of `shutDown` has returned, everything is done, and the lock is released. -/
  returned : ∀ t, s.last t = some .shutDown → returned (s.session.program t) →
    s.log = teardown h ∧ s.session.destroyed = [h] ∧ s.session.obj.mpv = none ∧
      s.session.holder .shutdownLock ≠ some t

/-! ## The stages of a thread -/

/-- Where a thread is with regard to `shutDown`. -/
inductive Stage where
  | outside
  /-- It has called `shutDown`, and waits for the lock. -/
  | called
  /-- It has the lock, and has not read `mpv`. -/
  | locked
  /-- It has done `k` parts of the teardown. -/
  | tearing (k : Nat)
  /-- It has the lock, and `mpv` is null. -/
  | leaving
  deriving DecidableEq, Repr

/-- What is done outside of `shutDown`. -/
@[simp] def outsideOk : Op → Prop
  | .lock .shutdownLock | .unlock .shutdownLock => False
  | .set .mpv _ | .glCall _ | .call _ .clearWakeupCallback | .call _ .detachDestroy => False
  | _ => True

/-- What is done after `k` parts of the teardown: the next one, or what surrounds them. -/
@[simp] def tearingOk (h : Handle) (k : Nat) : Op → Prop
  | .set .mpv x => k = (teardown h).length ∧ x = none
  | .get .mpv | .set .isStopEvent _ | .set .isStopDraw _ => True
  | op => act op ≠ none ∧ (teardown h)[k]? = act op

@[simp] def Stage.ok (h : Handle) (op : Op) : Stage → Prop
  | .outside => outsideOk op
  | .called => op = .lock .shutdownLock
  | .locked => op = .get .mpv
  | .tearing k => tearingOk h k op
  | .leaving => op = .unlock .shutdownLock

/-- `mpv` is the handle until it is set to null. -/
@[simp] def Stage.admits (h : Handle) : Stage → (op : Op) → op.Res → Prop
  | .tearing _, .get .mpv, r => r = some h
  | _, _, _ => True

/-- The test of `mpv` finds out whether the teardown is left to the thread. -/
@[simp] def lockedAfter : (op : Op) → op.Res → Stage
  | .get .mpv, none => .leaving
  | _, _ => .tearing 0

@[simp] def tearingAfter (k : Nat) : Op → Stage
  | .set .mpv _ => .leaving
  | op => if (act op).isSome then .tearing (k + 1) else .tearing k

/-- The stage after the operation. -/
@[simp] def Stage.after (op : Op) (r : op.Res) : Stage → Stage
  | .called => .locked
  | .locked => lockedAfter op r
  | .tearing k => tearingAfter k op
  | .leaving | .outside => .outside

@[simp] def rules (h : Handle) : Rules Op Op.Res Stage where
  ok m op := m.ok h op
  admits := Stage.admits h
  next m op r m' := m' = m.after op r

/-- What is left of the program follows the rules, and ends outside of `shutDown`. -/
def Follows {α : Type} (h : Handle) (p : Core α) (m : Stage) : Prop :=
  Safe (rules h) p (fun _ m' => m' = .outside) m

theorem shutDown_follows (h : Handle) : Follows h Core.shutDown .called := by
  simp [Follows, Core.shutDown, teardown]
  rintro (_ | _) <;> simp

/-! ## The code outside of `shutDown` -/

theorem outsideOk_of_queueOk (op : Op) (h : queueOk op) : outsideOk op := by
  cases op with
  | set v x => cases v <;> first | exact h.elim | trivial
  | call hd f => cases f <;> first | exact h.elim | trivial
  | lock | unlock | glCall => exact h.elim
  | get | free | initWithCString | uninitialized | dispatch | deliver | inDelegate => trivial

theorem outsideOk_of_quietOk (op : Op) (h : quietOk op) : outsideOk op :=
  outsideOk_of_queueOk op (queueOk_of_quietOk op h)

theorem outsideOk_of_primitiveOk (op : Op) (h : primitiveOk op) : outsideOk op := by
  cases op with
  | call hd f => cases f <;> first | exact h.elim | trivial
  | lock l | unlock l =>
    obtain rfl := h
    trivial
  | get | free | initWithCString | uninitialized => trivial
  | set | glCall | dispatch | deliver | inDelegate => exact h.elim

theorem follows_of_only {α : Type} {p : Core α} (h : Handle) (hp : Only outsideOk p) :
    Follows h p .outside := by
  refine hp.safe rfl ?_ ?_
  · rintro _ op rfl hop
    exact hop
  · rintro _ op r m rfl hop hm
    exact hm

/-- Where a thread is that has just made the call. -/
def Stage.entering : Call → Stage
  | .shutDown => .called
  | _ => .outside

theorem call_follows (h : Handle) (c : Call) : Follows h c.body (.entering c) := by
  by_cases hc : c = .shutDown
  · subst hc
    exact shutDown_follows h
  · have houtside : Stage.entering c = .outside := by
      cases c <;> first | rfl | exact absurd rfl hc
    have honly : Only outsideOk c.body :=
      (Call.composed hc).only outsideOk_of_quietOk fun g => g.only.mono outsideOk_of_primitiveOk
    exact houtside ▸ follows_of_only h honly

theorem Follows.bind {α β : Type} {h : Handle} {p : Core α} {f : α → Core β} {m : Stage}
    (hp : Follows h p m) (hf : ∀ a, Follows h (f a) .outside) : Follows h (p >>= f) m :=
  Safe.bind hp fun a m' hm => by
    subst hm
    exact hf a

/-! ## The invariant -/

/-- The first `k` parts of the teardown have been done, and `mpv` is still set. -/
structure At (h : Handle) (s : State) (k : Nat) : Prop where
  log : s.log = (teardown h).take k
  mpv : s.session.obj.mpv = some h

/-- The teardown has been done. -/
structure Gone (h : Handle) (s : State) : Prop where
  log : s.log = teardown h
  mpv : s.session.obj.mpv = none

/-- The handle that was destroyed. -/
def Act.handle : Act → Option Handle
  | .destroyed h => h
  | .wakeupCleared _ | .updateCleared | .uninitialized => none

/-- A thread in this stage has the lock. -/
def Stage.Holds : Stage → Prop
  | .locked | .tearing _ | .leaving => True
  | .outside | .called => False

/-- What the thread that has the lock knows about the teardown. -/
def Stage.Knows (h : Handle) (s : State) : Stage → Prop
  | .locked => At h s 0 ∨ Gone h s
  | .tearing k => At h s k
  | .leaving => Gone h s
  | .outside | .called => True

/-- Every thread is in its stage, and while the lock is free no teardown is under way. -/
structure Orderly (h : Handle) (s : State) (m : Thread → Stage) : Prop where
  follows : ∀ t, Follows h (s.session.program t) (m t)
  holder : ∀ t, s.session.holder .shutdownLock = some t ↔ (m t).Holds
  knows : ∀ t, (m t).Knows h s
  free : s.session.holder .shutdownLock = none → At h s 0 ∨ Gone h s
  last : ∀ t, s.last t = some .shutDown → m t = .outside → Gone h s
  destroyed : s.session.destroyed = s.log.filterMap Act.handle

theorem At.congr {h : Handle} {s s' : State} {k : Nat} (hat : At h s k) (hlog : s'.log = s.log)
    (hmpv : s'.session.obj.mpv = s.session.obj.mpv) : At h s' k :=
  ⟨hlog.trans hat.log, hmpv.trans hat.mpv⟩

theorem Gone.congr {h : Handle} {s s' : State} (hgone : Gone h s) (hlog : s'.log = s.log)
    (hmpv : s'.session.obj.mpv = s.session.obj.mpv) : Gone h s' :=
  ⟨hlog.trans hgone.log, hmpv.trans hgone.mpv⟩

theorem At.not_gone {h : Handle} {s : State} {k : Nat} (hat : At h s k) : ¬ Gone h s := by
  intro hgone
  cases hat.mpv.symm.trans hgone.mpv

theorem Stage.Knows.congr {h : Handle} {s s' : State} {m : Stage} (hm : m.Knows h s)
    (hlog : s'.log = s.log) (hmpv : s'.session.obj.mpv = s.session.obj.mpv) : m.Knows h s' := by
  cases m with
  | locked => exact hm.imp (·.congr hlog hmpv) (·.congr hlog hmpv)
  | tearing k => exact At.congr hm hlog hmpv
  | leaving => exact Gone.congr hm hlog hmpv
  | outside | called => trivial

theorem Stage.knows_of_not_holds {h : Handle} {s : State} {m : Stage} (hm : ¬ m.Holds) :
    m.Knows h s := by
  cases m with
  | locked | tearing | leaving => exact absurd trivial hm
  | outside | called => trivial

theorem Orderly.afterInitView (h : Handle) (o : Object) :
    Orderly h { session := .afterInitView h o } fun _ => .outside where
  follows _ := rfl
  holder _ := ⟨nofun, False.elim⟩
  knows _ := trivial
  free _ := .inl ⟨rfl, rfl⟩
  last _ := nofun
  destroyed := rfl

/-! ## Steps -/

variable {h : Handle} {s s' : State} {m : Thread → Stage} {t : Thread} {p : Core Bool} {n : Stage}

/-- The thread `t` goes on with `p` in the stage `n`, and leaves the lock and the teardown alone. -/
theorem Orderly.idle (ho : Orderly h s m)
    (hprogram : s'.session.program = Function.update s.session.program t p)
    (hlog : s'.log = s.log) (hmpv : s'.session.obj.mpv = s.session.obj.mpv)
    (hdestroyed : s'.session.destroyed = s.session.destroyed)
    (hholder : s'.session.holder .shutdownLock = s.session.holder .shutdownLock)
    (hlast : ∀ u, u ≠ t → s'.last u = s.last u) (hp : Follows h p n)
    (hn : n.Holds ↔ (m t).Holds) (hknows : n.Knows h s)
    (hreturned : s'.last t = some .shutDown → n = .outside → Gone h s) :
    Orderly h s' (Function.update m t n) where
  follows u := by
    by_cases hu : u = t
    · subst hu
      simpa [hprogram] using hp
    · simpa [hprogram, hu] using ho.follows u
  holder u := by
    rw [hholder, ho.holder u]
    by_cases hu : u = t
    · subst hu
      simpa using hn.symm
    · simp [hu]
  knows u := by
    by_cases hu : u = t
    · subst hu
      simpa using hknows.congr hlog hmpv
    · simpa [hu] using (ho.knows u).congr hlog hmpv
  free hfree := (ho.free (hholder ▸ hfree)).imp (·.congr hlog hmpv) (·.congr hlog hmpv)
  last u hlast' hout := by
    by_cases hu : u = t
    · subst hu
      exact (hreturned hlast' (by simpa using hout)).congr hlog hmpv
    · exact (ho.last u (hlast u hu ▸ hlast') (by simpa [hu] using hout)).congr hlog hmpv
  destroyed := by rw [hdestroyed, hlog, ho.destroyed]

/-- The thread `t` goes on with `p` in the stage `n`, where it has the lock or has released it. -/
theorem Orderly.own (ho : Orderly h s m) (hothers : ∀ u, u ≠ t → ¬ (m u).Holds)
    (hprogram : s'.session.program = Function.update s.session.program t p)
    (hholder : n.Holds ∧ s'.session.holder .shutdownLock = some t ∨
      n = .outside ∧ s'.session.holder .shutdownLock = none ∧ Gone h s')
    (hlast : s'.last = s.last) (hp : Follows h p n) (hknows : n.Knows h s')
    (hgone : Gone h s → Gone h s')
    (hdestroyed : s'.session.destroyed = s'.log.filterMap Act.handle) :
    Orderly h s' (Function.update m t n) where
  follows u := by
    by_cases hu : u = t
    · subst hu
      simpa [hprogram] using hp
    · simpa [hprogram, hu] using ho.follows u
  holder u := by
    by_cases hu : u = t
    · subst hu
      obtain ⟨hn, hheld⟩ | ⟨rfl, hfree, -⟩ := hholder
      · simp [hheld, hn]
      · simp [hfree, Stage.Holds]
    · obtain ⟨hn, hheld⟩ | ⟨rfl, hfree, -⟩ := hholder
      · simp [hheld, hu, hothers u hu, Ne.symm hu]
      · simp [hfree, hu, hothers u hu]
  knows u := by
    by_cases hu : u = t
    · subst hu
      simpa using hknows
    · simpa [hu] using Stage.knows_of_not_holds (hothers u hu)
  free hfree := by
    obtain ⟨-, hheld⟩ | ⟨-, -, hgone⟩ := hholder
    · cases hheld.symm.trans hfree
    · exact .inr hgone
  last u hlast' hout := by
    by_cases hu : u = t
    · subst hu
      obtain ⟨hn, -⟩ | ⟨-, -, hgone⟩ := hholder
      · obtain rfl : n = .outside := by simpa using hout
        exact hn.elim
      · exact hgone
    · exact hgone (ho.last u (hlast ▸ hlast') (by simpa [hu] using hout))
  destroyed := hdestroyed

/-- Only one thread has the lock. -/
theorem Orderly.alone (ho : Orderly h s m) (ht : (m t).Holds) (u : Thread) (hu : u ≠ t) :
    ¬ (m u).Holds := by
  intro hholds
  have heq := ((ho.holder u).mpr hholds).symm.trans ((ho.holder t).mpr ht)
  exact hu (Option.some.inj heq)

theorem act_of_outsideOk {op : Op} (hop : outsideOk op) : act op = none := by
  cases op with
  | call hd f => cases f <;> first | rfl | exact hop.elim
  | glCall f => exact hop.elim
  | get | set | lock | unlock | free | initWithCString | uninitialized | dispatch | deliver
  | inDelegate => rfl

/-- What is done outside of `shutDown` leaves the handle and the lock alone. -/
theorem perform_outside {s m : Session.State} {a : Answer} {op : Op} {r : op.Res}
    (hop : outsideOk op) (hm : s.perform t a op = some (r, m)) :
    m.obj.mpv = s.obj.mpv ∧ m.destroyed = s.destroyed ∧
      m.holder .shutdownLock = s.holder .shutdownLock := by
  have hframe := State.perform_frame hm
  refine ⟨?_, hframe.destroyed fun _ => ?_, hframe.holder _ ?_ ?_⟩
  · cases op with
    | set v x =>
      obtain ⟨-, rfl⟩ := Prod.mk.inj (Option.some.inj hm)
      cases v <;> first | exact hop.elim | rfl
    | get | lock | unlock | call | glCall | free | initWithCString | uninitialized | dispatch
    | deliver | inDelegate => rw [hframe.obj (by rintro v x ⟨⟩)]
  all_goals
    rintro rfl
    exact hop

/-- The record of an operation. The delegate is in control between its calls. -/
theorem record_run {op : Op} {k : op.Res → Core Bool} {a : Answer}
    (hp : s.session.program t = .act op k) (hop : op ≠ .inDelegate) :
    s.record (.run t a) = { s with log := s.log ++ (act op).toList } := by
  simp only [State.record, hp]
  cases op with
  | inDelegate => exact absurd rfl hop
  | get | set | lock | unlock | call | glCall | free | initWithCString | uninitialized | dispatch
  | deliver => rfl

/-- A thread outside of `shutDown` makes a call. -/
theorem Orderly.enter {c : Call} {f : Unit → Core Bool} (ho : Orderly h s m)
    (hstage : m t = .outside)
    (hprogram : s'.session.program = Function.update s.session.program t (c.body >>= f))
    (hlog : s'.log = s.log) (hmpv : s'.session.obj.mpv = s.session.obj.mpv)
    (hdestroyed : s'.session.destroyed = s.session.destroyed)
    (hholder : s'.session.holder .shutdownLock = s.session.holder .shutdownLock)
    (hlast : s'.last = Function.update s.last t (some c)) (hf : ∀ a, Follows h (f a) .outside) :
    ∃ m', Orderly h s' m' := by
  refine ⟨_, ho.idle (n := .entering c) hprogram hlog hmpv hdestroyed hholder (fun u hu => ?_)
    ((call_follows h c).bind hf) ?_ ?_ fun hcall hn => ?_⟩
  · simp [hlast, hu]
  · rw [hstage]
    cases c <;> exact Iff.rfl
  · cases c <;> trivial
  · obtain rfl : c = .shutDown := by simpa [hlast] using hcall
    cases hn

/-- The delegate makes its next call, or returns. -/
theorem Orderly.runDelegate {a : Answer} {k : Unit → Core Bool} (ho : Orderly h s m)
    (hstage : m t = .outside) (hp : s.session.program t = .act .inDelegate k) :
    ∃ m', Orderly h
      { s.record (.run t a) with session := s.session.goto t (a.resume .inDelegate k ()) } m' := by
  have hfollows : Follows h (.act .inDelegate k) .outside := hp ▸ hstage ▸ ho.follows t
  have hrecord : s.record (.run t a) = { s with last := Function.update s.last t a.delegate } := by
    simp only [State.record, hp]
  rw [hrecord]
  cases hc : a.delegate with
  | none =>
    refine ⟨_, ho.idle (n := .outside) rfl rfl rfl rfl rfl (fun u hu => ?_) ?_ (by simp [hstage])
      trivial fun h => ?_⟩
    · simp [hu]
    · simp only [Answer.resume, hc]
      exact hfollows.2 () trivial _ rfl
    · simp at h
  | some c =>
    have hresume : a.resume .inDelegate k () = c.body >>= fun _ => .act .inDelegate k := by
      simp only [Answer.resume, hc]
    rw [hresume]
    exact ho.enter hstage rfl rfl rfl rfl rfl rfl fun _ => hfollows

/-- A thread goes on outside of `shutDown`. -/
theorem Orderly.runOutside {a : Answer} {u : Session.State} (ho : Orderly h s m)
    (hstage : m t = .outside) (hs : Session.step s.session (.run t a) = some u) :
    ∃ m', Orderly h { s.record (.run t a) with session := u } m' := by
  obtain ⟨op, k, r, c, hp, hm, rfl⟩ := run_cases hs
  have hfollows : Follows h (.act op k) .outside := hp ▸ hstage ▸ ho.follows t
  by_cases hop : op = .inDelegate
  · subst hop
    obtain ⟨-, rfl⟩ := Prod.mk.inj (Option.some.inj hm)
    exact ho.runDelegate hstage hp
  obtain ⟨hmpv, hdestroyed, hholder⟩ := perform_outside hfollows.1 hm
  rw [record_run hp hop, act_of_outsideOk hfollows.1, a.resume_of_ne hop]
  refine ⟨_, ho.idle (t := t) (n := .outside) ?_ (List.append_nil _) hmpv hdestroyed hholder
    (fun _ _ => rfl) (hfollows.2 r trivial _ rfl) (by simp [hstage]) trivial ?_⟩
  · simp [State.goto, State.perform_program hm]
  · exact fun hcall _ => ho.last t hcall hstage

/-- A thread takes the lock, and nobody else is in front of it. -/
theorem Orderly.runCalled {a : Answer} {u : Session.State} (ho : Orderly h s m)
    (hstage : m t = .called) (hs : Session.step s.session (.run t a) = some u) :
    ∃ m', Orderly h { s.record (.run t a) with session := u } m' := by
  obtain ⟨op, k, r, c, hp, hm, rfl⟩ := run_cases hs
  have hfollows : Follows h (.act op k) .called := hp ▸ hstage ▸ ho.follows t
  obtain rfl : op = .lock .shutdownLock := hfollows.1
  simp only [State.perform, Option.ite_none_right_eq_some, Option.some.injEq, Prod.mk.injEq] at hm
  obtain ⟨hfree, -, rfl⟩ := hm
  have hothers (u : Thread) (_ : u ≠ t) : ¬ (m u).Holds := by
    rw [← ho.holder u, hfree]
    rintro ⟨⟩
  have hlog : s.log ++ (act (.lock .shutdownLock)).toList = s.log := List.append_nil _
  rw [record_run hp (by rintro ⟨⟩), hlog]
  exact ⟨_, ho.own (t := t) (n := .locked) hothers rfl (.inl ⟨trivial, by simp [State.goto]⟩) rfl
    (hfollows.2 r trivial _ rfl) ((ho.free hfree).imp (·.congr rfl rfl) (·.congr rfl rfl))
    (·.congr rfl rfl) ho.destroyed⟩

/-- A thread that has the lock finds out whether the teardown is left to it. -/
theorem Orderly.runLocked {a : Answer} {u : Session.State} (ho : Orderly h s m)
    (hstage : m t = .locked) (hs : Session.step s.session (.run t a) = some u) :
    ∃ m', Orderly h { s.record (.run t a) with session := u } m' := by
  obtain ⟨op, k, r, c, hp, hm, rfl⟩ := run_cases hs
  have hfollows : Follows h (.act op k) .locked := hp ▸ hstage ▸ ho.follows t
  obtain rfl : op = .get .mpv := hfollows.1
  obtain ⟨rfl, rfl⟩ := Prod.mk.inj (Option.some.inj hm)
  have hholds : (m t).Holds := hstage ▸ trivial
  have hheld : s.session.holder .shutdownLock = some t := (ho.holder t).mpr hholds
  have hknows : (m t).Knows h s := ho.knows t
  rw [hstage] at hknows
  have hlog : s.log ++ (act (.get .mpv)).toList = s.log := List.append_nil _
  have hresume : a.resume (.get .mpv) k (s.session.obj.get .mpv) = k s.session.obj.mpv := rfl
  have hnext : Follows h (k s.session.obj.mpv) (lockedAfter (.get .mpv) s.session.obj.mpv) :=
    hfollows.2 _ trivial _ rfl
  rw [record_run hp (by rintro ⟨⟩), hlog, hresume]
  obtain hat | hgone := hknows
  · rw [hat.mpv] at hnext ⊢
    exact ⟨_, ho.own (t := t) (n := .tearing 0) (ho.alone hholds) rfl (.inl ⟨trivial, hheld⟩)
      rfl hnext (hat.congr rfl rfl) (·.congr rfl rfl) ho.destroyed⟩
  · rw [hgone.mpv] at hnext ⊢
    exact ⟨_, ho.own (t := t) (n := .leaving) (ho.alone hholds) rfl (.inl ⟨trivial, hheld⟩)
      rfl hnext (hgone.congr rfl rfl) (·.congr rfl rfl) ho.destroyed⟩

/-- During the teardown a thread does the next part of it, sets `mpv` to null after the last
    one, or does something else. -/
theorem tearing_cases {j : Nat} {op : Op} (hok : tearingOk h j op) :
    (op = .set .mpv none ∧ j = (teardown h).length) ∨
      (outsideOk op ∧ op ≠ .inDelegate) ∨
      ∃ x, act op = some x ∧ (teardown h)[j]? = some x := by
  cases op with
  | set v x =>
    cases v
    case mpv =>
      obtain ⟨hj, rfl⟩ := hok
      exact .inl ⟨rfl, hj⟩
    case isStopEvent | isStopDraw => exact .inr (.inl ⟨trivial, nofun⟩)
    all_goals exact absurd rfl hok.1
  | get v => exact .inr (.inl ⟨trivial, nofun⟩)
  | call hd f => cases f <;> first | exact .inr (.inr ⟨_, rfl, hok.2⟩) | exact absurd rfl hok.1
  | glCall f => cases f <;> exact .inr (.inr ⟨_, rfl, hok.2⟩)
  | lock | unlock | free | initWithCString | uninitialized | dispatch | deliver | inDelegate =>
    exact absurd rfl hok.1

/-- The part of a teardown that is done to a handle in use. -/
theorem perform_act {s m : Session.State} {a : Answer} {op : Op} {r : op.Res} {x : Act}
    (hx : act op = some x) (hlive : ∀ h ∈ x.handle, h ∉ s.destroyed)
    (hm : s.perform t a op = some (r, m)) :
    m.obj = s.obj ∧ m.holder = s.holder ∧ m.destroyed = x.handle.toList ++ s.destroyed := by
  cases op with
  | call hd f =>
    obtain ⟨-, rfl⟩ := Prod.mk.inj (Option.some.inj hm)
    cases f with
    | clearWakeupCallback =>
      cases hx
      unfold State.invoke
      split <;> exact ⟨rfl, rfl, rfl⟩
    | detachDestroy =>
      cases hx
      cases hd with
      | none => exact ⟨rfl, rfl, rfl⟩
      | some hd =>
        have hin : s.Live (some hd) := ⟨hd, rfl, hlive hd rfl⟩
        simp [State.invoke, hin, Act.handle]
    | setOptionString | command | setProperty | getProperty | waitEvent => cases hx
  | glCall f =>
    obtain ⟨-, rfl⟩ := Prod.mk.inj (Option.some.inj hm)
    cases f <;> cases hx <;> exact ⟨rfl, rfl, rfl⟩
  | get | set | lock | unlock | free | initWithCString | uninitialized | dispatch | deliver
  | inDelegate => cases hx

/-- Only the last part of the teardown destroys a handle. -/
theorem handle_of_teardown {j : Nat} {x : Act} (hj : (teardown h)[j]? = some x) :
    (∀ h' ∈ x.handle, h' ∉ ((teardown h).take j).filterMap Act.handle) ∧
      x.handle.toList ++ ((teardown h).take j).filterMap Act.handle =
        ((teardown h).take (j + 1)).filterMap Act.handle := by
  obtain _ | _ | _ | _ | j := j <;> cases hj <;> exact ⟨nofun, rfl⟩

theorem tearing_after {op : Op} {x : Act} (hx : act op = some x) (j : Nat) (r : op.Res) :
    Stage.admits h (.tearing j) op r ∧ tearingAfter j op = .tearing (j + 1) := by
  cases op with
  | call hd f => cases f <;> first | exact ⟨trivial, rfl⟩ | cases hx
  | glCall f => cases f <;> exact ⟨trivial, rfl⟩
  | get | set | lock | unlock | free | initWithCString | uninitialized | dispatch | deliver
  | inDelegate => cases hx

theorem tearing_after_outside {j : Nat} {op : Op} (hop : outsideOk op) :
    tearingAfter j op = .tearing j := by
  cases op with
  | set v x => cases v <;> first | rfl | exact hop.elim
  | call hd f => cases f <;> first | rfl | exact hop.elim
  | glCall f => exact hop.elim
  | get | lock | unlock | free | initWithCString | uninitialized | dispatch | deliver
  | inDelegate => rfl

/-- During the teardown `mpv` is read as it was set. -/
theorem perform_admits {s c : Session.State} {a : Answer} {j : Nat} {op : Op} {r : op.Res}
    (hmpv : s.obj.mpv = some h) (hm : s.perform t a op = some (r, c)) :
    Stage.admits h (.tearing j) op r := by
  cases op with
  | get v =>
    obtain ⟨rfl, -⟩ := Prod.mk.inj (Option.some.inj hm)
    cases v <;> first | exact hmpv | trivial
  | set | lock | unlock | call | glCall | free | initWithCString | uninitialized | dispatch
  | deliver | inDelegate => trivial

/-- The next part of the teardown. -/
theorem Orderly.part {a : Answer} {j : Nat} {op : Op} {k : op.Res → Core Bool} {r : op.Res}
    {c : Session.State} {x : Act} (ho : Orderly h s m) (hstage : m t = .tearing j)
    (hp : s.session.program t = .act op k) (hx : act op = some x)
    (hj : (teardown h)[j]? = some x) (hm : s.session.perform t a op = some (r, c)) :
    ∃ m', Orderly h { s with session := c.goto t (k r), log := s.log ++ [x] } m' := by
  have hfollows : Follows h (.act op k) (.tearing j) := hp ▸ hstage ▸ ho.follows t
  have hholds : (m t).Holds := hstage ▸ trivial
  have hat : (m t).Knows h s := ho.knows t
  rw [hstage] at hat
  have hlog : s.log ++ [x] = (teardown h).take (j + 1) := by
    rw [List.take_add_one, hj, hat.log, Option.toList_some]
  obtain ⟨hlive, hhandle⟩ := handle_of_teardown hj
  rw [← hat.log, ← ho.destroyed] at hlive hhandle
  obtain ⟨hobj, hholder, hdestroyed⟩ := perform_act hx hlive hm
  obtain ⟨hadmits, hafter⟩ := tearing_after (h := h) hx j r
  refine ⟨_, ho.own (t := t) (p := k r) (n := .tearing (j + 1)) (ho.alone hholds) ?_
    (.inl ⟨trivial, ?_⟩) rfl (hfollows.2 r hadmits _ hafter.symm) ⟨hlog, ?_⟩ ?_ ?_⟩
  · simp [State.goto, State.perform_program hm]
  · exact (congrFun hholder _).trans ((ho.holder t).mpr hholds)
  · exact hobj ▸ hat.mpv
  · exact fun hgone => absurd hgone (At.not_gone hat)
  · rw [hlog, ← hhandle]
    exact hdestroyed

/-- A thread goes on with the teardown. -/
theorem Orderly.runTearing {a : Answer} {u : Session.State} {j : Nat} (ho : Orderly h s m)
    (hstage : m t = .tearing j) (hs : Session.step s.session (.run t a) = some u) :
    ∃ m', Orderly h { s.record (.run t a) with session := u } m' := by
  obtain ⟨op, k, r, c, hp, hm, rfl⟩ := run_cases hs
  have hfollows : Follows h (.act op k) (.tearing j) := hp ▸ hstage ▸ ho.follows t
  have hholds : (m t).Holds := hstage ▸ trivial
  have hheld : s.session.holder .shutdownLock = some t := (ho.holder t).mpr hholds
  have hat : (m t).Knows h s := ho.knows t
  rw [hstage] at hat
  obtain ⟨rfl, hj⟩ | ⟨hop, hne⟩ | ⟨x, hx, hj⟩ := tearing_cases hfollows.1
  · obtain ⟨-, rfl⟩ := Prod.mk.inj (Option.some.inj hm)
    have hlog : s.log = teardown h := by rw [hat.log, hj, List.take_length]
    have hrecord : s.log ++ (act (.set .mpv none)).toList = s.log := List.append_nil _
    rw [record_run hp (by rintro ⟨⟩), hrecord]
    exact ⟨_, ho.own (t := t) (n := .leaving) (ho.alone hholds) rfl (.inl ⟨trivial, hheld⟩) rfl
      (hfollows.2 r trivial _ rfl) ⟨hlog, rfl⟩ (fun _ => ⟨hlog, rfl⟩) ho.destroyed⟩
  · obtain ⟨hmpv, hdestroyed, hholder⟩ := perform_outside hop hm
    rw [record_run hp hne, act_of_outsideOk hop, a.resume_of_ne hne]
    refine ⟨_, ho.idle (t := t) (n := .tearing j) ?_ (List.append_nil _) hmpv hdestroyed hholder
      (fun _ _ => rfl) (hfollows.2 r ?_ _ ?_) (by simp [hstage]) hat nofun⟩
    · simp [State.goto, State.perform_program hm]
    · exact perform_admits hat.mpv hm
    · exact (tearing_after_outside hop).symm
  · have hne : op ≠ .inDelegate := by
      rintro rfl
      cases hx
    rw [record_run hp hne, hx, a.resume_of_ne hne]
    exact ho.part hstage hp hx hj hm

/-- The last step of `shutDown`. -/
theorem Orderly.runLeaving {a : Answer} {u : Session.State} (ho : Orderly h s m)
    (hstage : m t = .leaving) (hs : Session.step s.session (.run t a) = some u) :
    ∃ m', Orderly h { s.record (.run t a) with session := u } m' := by
  obtain ⟨op, k, r, c, hp, hm, rfl⟩ := run_cases hs
  have hfollows : Follows h (.act op k) .leaving := hp ▸ hstage ▸ ho.follows t
  obtain rfl : op = .unlock .shutdownLock := hfollows.1
  obtain ⟨-, rfl⟩ := Prod.mk.inj (Option.some.inj hm)
  have hgone : (m t).Knows h s := ho.knows t
  rw [hstage] at hgone
  have hlog : s.log ++ (act (.unlock .shutdownLock)).toList = s.log := List.append_nil _
  rw [record_run hp (by rintro ⟨⟩), hlog]
  exact ⟨_, ho.own (t := t) (n := .outside) (ho.alone (hstage ▸ trivial)) rfl
    (.inr ⟨rfl, by simp [State.goto], Gone.congr hgone rfl rfl⟩) rfl (hfollows.2 r trivial _ rfl)
    trivial (·.congr rfl rfl) ho.destroyed⟩

/-- A thread that is in no call is outside of `shutDown`, and may begin something else. -/
theorem Orderly.outside {b : Bool} (ho : Orderly h s m) (hp : s.session.program t = .ret b) :
    m t = .outside := by
  have hfollows := ho.follows t
  rw [hp] at hfollows
  exact hfollows

theorem Orderly.step {l : Label} (ho : Orderly h s m) (hs : Destruction.step s l = some s') :
    ∃ m', Orderly h s' m' := by
  obtain ⟨u, hu, rfl⟩ := Option.map_eq_some_iff.mp hs
  cases l with
  | call i c =>
    obtain ⟨⟨b, hp⟩, rfl⟩ := call_cases hu
    exact ho.enter (ho.outside hp) rfl rfl rfl rfl rfl rfl fun _ => rfl
  | wakeup i =>
    obtain ⟨⟨b, hp⟩, rfl⟩ := wakeup_cases hu
    have hstage := ho.outside hp
    have hfollows : Follows h Core.wakeup .outside :=
      follows_of_only h (wakeup_quietOk.mono outsideOk_of_quietOk)
    refine ⟨_, ho.idle (t := .caller i) (n := .outside) rfl rfl rfl rfl rfl (fun v hv => ?_)
      (hfollows.bind fun _ => rfl) (by simp [hstage]) trivial fun hcall => ?_⟩
    · simp [State.record, hv]
    · simp [State.record] at hcall
  | take =>
    obtain ⟨hp, b, bs, -, rfl⟩ := take_cases hu
    have hstage := ho.outside hp
    exact ⟨_, ho.idle (t := .queue) (n := .outside) rfl rfl rfl rfl rfl (fun _ _ => rfl)
      (follows_of_only h (b.queueOk.mono outsideOk_of_queueOk)) (by simp [hstage]) trivial
      fun hcall _ => ho.last .queue hcall hstage⟩
  | again =>
    obtain ⟨hp, rfl⟩ := again_cases hu
    have hstage := ho.outside hp
    exact ⟨_, ho.idle (t := .queue) (n := .outside) rfl rfl rfl rfl rfl (fun _ _ => rfl)
      (follows_of_only h (readEventsPass_queueOk.mono outsideOk_of_queueOk)) (by simp [hstage])
      trivial fun hcall _ => ho.last .queue hcall hstage⟩
  | run t a =>
    cases hstage : m t with
    | outside => exact ho.runOutside hstage hu
    | called => exact ho.runCalled hstage hu
    | locked => exact ho.runLocked hstage hu
    | tearing j => exact ho.runTearing hstage hu
    | leaving => exact ho.runLeaving hstage hu

theorem orderly_of_reachable (hs : (destruction h).Reachable s) : ∃ m, Orderly h s m :=
  hs.invariant (I := fun s => ∃ m, Orderly h s m)
    (by rintro _ ⟨o, rfl⟩; exact ⟨_, .afterInitView h o⟩)
    fun _ _ _ ⟨_, ho⟩ _ hstep => ho.step hstep

/-! ## What comes out of it -/

/-- A thread that has returned from its calls is outside of `shutDown`. -/
theorem Follows.outside_of_returned {m : Stage} (hp : Follows h p m) (hr : returned p) :
    m = .outside := by
  cases p with
  | ret b => exact hp
  | act op k =>
    cases op with
    | inDelegate => cases m <;> first | rfl | exact absurd rfl hp.1.1 | cases hp.1
    | get | set | lock | unlock | call | glCall | free | initWithCString | uninitialized | dispatch
    | deliver => cases hr

/-- What has been done is a beginning of the teardown. -/
theorem Orderly.ordered (ho : Orderly h s m) : s.log <+: teardown h := by
  have hfree (h0 : At h s 0 ∨ Gone h s) : s.log <+: teardown h := by
    obtain hat | hgone := h0
    · exact hat.log ▸ List.take_prefix _ _
    · rw [hgone.log]
  cases hheld : s.session.holder .shutdownLock with
  | none => exact hfree (ho.free hheld)
  | some t =>
    have hholds := (ho.holder t).mp hheld
    have hknows := ho.knows t
    cases hstage : m t <;> rw [hstage] at hholds hknows
    case outside | called => exact hholds.elim
    case locked => exact hfree hknows
    case tearing j => exact hknows.log ▸ List.take_prefix _ _
    case leaving => exact hfree (.inr hknows)

theorem teardown_nodup (h : Handle) : (teardown h).Nodup := by simp [teardown]

/-- After one successful `initView` the teardown happens once and in order, and every call of
    `shutDown` that has returned has found it done. -/
theorem tornDownOnce_of_reachable {h : Handle} {s : State} (hs : (destruction h).Reachable s) :
    TornDownOnce h s := by
  obtain ⟨m, ho⟩ := orderly_of_reachable hs
  refine ⟨ho.ordered, ho.ordered.sublist.nodup (teardown_nodup h), fun t hlast hr => ?_⟩
  have hstage : m t = .outside := (ho.follows t).outside_of_returned hr
  have hgone : Gone h s := ho.last t hlast hstage
  refine ⟨hgone.log, ?_, hgone.mpv, fun hheld => ?_⟩
  · rw [ho.destroyed, hgone.log]
    rfl
  · have hholds := (ho.holder t).mp hheld
    rw [hstage] at hholds
    exact hholds

/-- One thread tears the handle down while another one waits for the lock, and the delegate
    calls `shutDown` after both. -/
theorem tornDownOnce_of_three :
    ∃ s, TornDownOnce 1 s ∧ s.log = teardown 1 ∧ ∀ t ∈ [.caller 0, .caller 1, .queue],
      (s.last t matches some .shutDown) ∧ returned (s.session.program t) := by
  obtain ⟨s, hs, htest⟩ := Machine.Reachable.exec_any
    (.init ⟨{}, rfl⟩ : (destruction 1).Reachable { session := .afterInitView 1 {} })
    (takes 3 ++ .run .queue { event := ⟨.playbackRestart, .none⟩ } :: runs .queue 4 ++
      calls 0 .shutDown 5 ++ calls 1 .shutDown 0 ++ runs (.caller 0) 7 ++ runs (.caller 1) 3 ++
      .run .queue { delegate := some .shutDown } :: runs .queue 3)
    (p := fun s => decide (s.log = teardown 1 ∧ ∀ t ∈ [.caller 0, .caller 1, .queue],
      (s.last t matches some .shutDown) ∧ returned (s.session.program t)))
    (by decide +kernel)
  exact ⟨s, tornDownOnce_of_reachable hs, of_decide_eq_true htest⟩

end Destruction
