-- SUMMARY: When the player calls mpv with a handle that is null or destroyed, and the runs in which it does not.
import KitPlayerCore.Core.Composition
import KitPlayerCore.Session.Machine

/-!
# The handle and asynchronous work

The methods test `mpv` before they call mpv, or they do not test it at all, and
the blocks for mpv's commands do not test it again. `shutDown` destroys the
handle under a lock that none of them takes. So a call is safe as long as every
test that was passed has led to its call before the handle is destroyed.
-/

namespace Session

open Core Mpv Transition

/-! ## What a program does with the handle -/

inductive Phase where
  /-- `mpv` is the handle `h`, and it is in use. -/
  | held (h : Handle)
  /-- The handle is destroyed and `mpv` is null. -/
  | gone
  deriving DecidableEq, Repr

/-- The operation may be performed: while a handle is held, only it is passed to
    mpv, and once it is gone, mpv is neither called nor is a block dispatched that
    will call it. -/
@[simp] def Phase.ok : Phase → Op → Prop
  | .held h, .call h' _ => h' = some h
  | .held _, .set .mpv _ => False
  | .gone, .call _ _ => False
  | .gone, .dispatch b => b.isCommand = false
  | _, _ => True

/-- What the operation may be answered. -/
@[simp] def Phase.admits : Phase → (op : Op) → op.Res → Prop
  | .held h, .get .mpv, r => r = some h
  | .gone, .get .mpv, r => r = none
  | _, _, _ => True

/-- The phase after the operation. The call that the delegate makes may be `shutDown`. -/
@[simp] def Phase.next : Phase → (op : Op) → op.Res → Phase → Prop
  | .held _, .call _ .detachDestroy, _, m => m = .gone
  | .held _, .inDelegate, _, _ => True
  | m, _, _, m' => m' = m

def handleRules : Program.Rules Op Op.Res Phase := ⟨Phase.ok, Phase.admits, Phase.next⟩

@[simp] theorem handleRules_ok : handleRules.ok = Phase.ok := rfl

@[simp] theorem handleRules_admits : handleRules.admits = Phase.admits := rfl

@[simp] theorem handleRules_next : handleRules.next = Phase.next := rfl

/-- From the phase `m` on the program follows the rules. -/
def Keeps {α : Type} (p : Core α) (m : Phase) : Prop := p.Safe handleRules (fun _ _ => True) m

/-- While `mpv` reads as null, the program neither calls mpv nor dispatches a
    block that will. -/
abbrev Unarmed {α : Type} (p : Core α) : Prop := Keeps p .gone

/-- The program follows the rules and leaves the handle held. -/
def Stays {α : Type} (p : Core α) (h : Handle) : Prop :=
  p.Safe handleRules (fun _ m => m = .held h) (.held h)

theorem Stays.keeps {α : Type} {p : Core α} {h : Handle} (hp : Stays p h) : Keeps p (.held h) :=
  hp.mono fun _ _ _ => trivial

theorem Stays.bind {α β : Type} {p : Core α} {f : α → Core β} {h : Handle} (hp : Stays p h)
    (hf : ∀ a, Stays (f a) h) : Stays (p >>= f) h :=
  Program.Safe.bind hp fun a m hm => by
    subst hm
    exact hf a

theorem Keeps.bind {α β : Type} {p : Core α} {f : α → Core β} {m : Phase} (hp : Keeps p m)
    (hf : ∀ a m, Keeps (f a) m) : Keeps (p >>= f) m :=
  Program.Safe.bind hp fun a m _ => hf a m

theorem Stays.ret {α : Type} (a : α) (h : Handle) : Stays (.ret a : Core α) h := rfl

/-! ## The methods -/

section methods

variable (h : Handle)

theorem setOptions_stays (dic : NSDictionary) (keys : List NSString) :
    Stays (setOptions dic keys) h := by
  induction keys with
  | nil => exact .ret () h
  | cons key keys ih => simpa [Stays, setOptions] using ih

theorem setOptionDic_stays (dic : Option NSDictionary) : Stays (setOptionDic dic) h := by
  cases dic with
  | none => simp [Stays, setOptionDic]
  | some dic => simpa [Stays, setOptionDic] using setOptions_stays h dic dic.allKeys

theorem setIsLog_stays (isLog : Bool) (logFile : NSString) : Stays (setIsLog isLog logFile) h := by
  cases isLog <;> simp [Stays, setIsLog]

theorem setHeaderDic_stays (dic : Option NSDictionary) : Stays (setHeaderDic dic) h := by
  cases dic with
  | none => simp [Stays, setHeaderDic]
  | some dic =>
    simp only [Stays, setHeaderDic]
    cases dic.valueForKey "User-Agent" <;> simp

theorem setAvOptionDic_stays (dic : Option NSDictionary) : Stays (setAvOptionDic dic) h := by
  simp only [Stays, setAvOptionDic]
  split <;> simp

theorem setParameter_stays (key : NSString) (value : Value) : Stays (setParameter key value) h := by
  simp [Stays, setParameter]

theorem setPause_stays (pause : Int) : Stays (setPause pause) h := by
  simp [Stays, setPause]

theorem Primitive.stays (g : Primitive) : Stays g.body h := by
  cases g with
  | double name => simp [Stays, Primitive.body, doubleGetter]
  | string key =>
    simp [Stays, Primitive.body, Core.getParameterStr]
    rintro (_ | _) <;> simp

/-- The getters only call the six that lock `parLock`, and keep the lists of tracks. -/
theorem Composed.stays {α : Type} {p : Core α} (hp : Composed cacheOk p) : Stays p h := by
  refine hp.safe rfl ?_ ?_
  · rintro m op rfl hop
    cases op with
    | get v => exact ⟨trivial, fun _ _ hm => hm⟩
    | set v x => cases v <;> first | exact hop.elim | exact ⟨trivial, fun _ _ hm => hm⟩
    | call | lock | unlock | glCall | free | initWithCString | uninitialized | dispatch | deliver
    | inDelegate => exact hop.elim
  · rintro g m rfl
    exact Primitive.stays h g

theorem Getter.stays (g : Getter) : Stays g.body h := Composed.stays h g.body_composed

theorem Setter.stays (s : Setter) : Stays s.body h := by
  refine s.assigned.safe (fun v x hv => ?_) (setParameter_stays h)
  cases v <;> first | exact ⟨trivial, fun _ hm => hm⟩ | cases hv

/-- Every public method follows the rules; `shutDown` is the one that lets the
    handle go. -/
theorem Call.keeps (c : Call) : Keeps c.body (.held h) := by
  cases c with
  | «open» => simp [Keeps, Call.body, Core.open]
  | stop => simp [Keeps, Call.body, Core.stop]
  | play => exact (setPause_stays h 0).keeps
  | pause => exact (setPause_stays h 1).keeps
  | seekTime time isExa => simp [Keeps, Call.body, Core.seekTime]
  | addSubtitle str => simp [Keeps, Call.body, Core.addSubtitle]
  | addAudio str => simp [Keeps, Call.body, Core.addAudio]
  | shutDown => simp [Keeps, Call.body, Core.shutDown]
  | setUrl url => simp [Keeps, Call.body, Core.setUrl]
  | setIsStopEvent b => simp [Keeps, Call.body, Core.setIsStopEvent]
  | setIsLog b logFile => exact (setIsLog_stays h b logFile).keeps
  | setOptionDic dic => exact (setOptionDic_stays h dic).keeps
  | setHeaderDic dic => exact (setHeaderDic_stays h dic).keeps
  | setAvOptionDic dic => exact (setAvOptionDic_stays h dic).keeps
  | setter s => exact (Setter.stays h s).keeps
  | getter g => exact (Getter.stays h g).keeps

theorem handleEvent_keeps (event : Event) (m : Phase) : Keeps (handleEvent event) m := by
  simp only [Keeps, handleEvent, runCoreEvent]
  cases m <;> split <;> simp

theorem wakeup_keeps (m : Phase) : Keeps Core.wakeup m := by
  cases m <;> simp [Keeps, Core.wakeup, readEvents, Block.isCommand]

/-- The loop tests `mpv` on every pass. -/
theorem readEventsPass_keeps (m : Phase) : Keeps readEventsPass m := by
  cases m with
  | gone => simp [Keeps, readEventsPass]
  | held h =>
    have hevent (event : Event) : Keeps (handleEvent event >>= fun _ => .ret true) (.held h) :=
      (handleEvent_keeps event _).bind fun _ _ => trivial
    simpa [Keeps, readEventsPass] using fun event _ => hevent event

theorem Block.keeps (b : Block) : Keeps b.body (.held h) := by
  cases b with
  | readEvents => exact readEventsPass_keeps _
  | loadfile => simp [Keeps, Block.body, runCommand]
  | subAdd str => simp [Keeps, Block.body, runCommand]
  | audioAdd str => simp [Keeps, Block.body, runCommand]

end methods

/-! ## Runs -/

/-- When the handle is destroyed, no other thread has passed its last test of
    `mpv` in front of a call of mpv or a dispatch of a command block, and no such
    block is pending. From then on no test that finds the stale `mpv` leads to
    such a call, and no method is called that does not test. -/
def Careful (s : State) : Label → Prop
  | .call _ c => s.destroyed ≠ [] → Unarmed c.body
  | .run t a =>
    match s.program t with
    | .act (.call _ .detachDestroy) _ =>
      (∀ u, u ≠ t → Unarmed (s.program u)) ∧ ∀ b ∈ s.queue, b.isCommand = false
    | .act (.get .mpv) k => s.destroyed ≠ [] → Unarmed (k s.obj.mpv)
    | .act .inDelegate _ => s.destroyed ≠ [] → ∀ c ∈ a.delegate, Unarmed c.body
    | _ => True
  | _ => True

/-- No call went wrong, and every thread follows the rules of the phase. -/
structure Tidy (s : State) : Prop where
  misused : s.misused = []
  held : s.destroyed = [] → ∃ h, s.obj.mpv = some h ∧ ∀ t, Keeps (s.program t) (.held h)
  gone : s.destroyed ≠ [] →
    (∀ t, Unarmed (s.program t)) ∧ ∀ b ∈ s.queue, b.isCommand = false

theorem Tidy.afterInitView (h : Handle) (o : Object) : Tidy (.afterInitView h o) where
  misused := rfl
  held _ := ⟨h, rfl, fun _ => trivial⟩
  gone hd := absurd rfl hd

/-- A thread that starts on another program, which follows the rules. -/
theorem Tidy.goto {s : State} (hs : Tidy s) {t : Thread} {p : Core Bool}
    (hheld : ∀ h, s.destroyed = [] → s.obj.mpv = some h → Keeps p (.held h))
    (hgone : s.destroyed ≠ [] → Unarmed p) :
    Tidy (s.goto t p) where
  misused := hs.misused
  held hd := by
    obtain ⟨h, hmpv, hp⟩ := hs.held hd
    refine ⟨h, hmpv, fun u => ?_⟩
    by_cases hu : u = t
    · subst hu
      simpa using hheld h hd hmpv
    · rw [State.goto_program_of_ne _ _ hu]
      exact hp u
  gone hd := by
    obtain ⟨hp, hq⟩ := hs.gone hd
    refine ⟨fun u => ?_, hq⟩
    by_cases hu : u = t
    · subst hu
      simpa using hgone hd
    · rw [State.goto_program_of_ne _ _ hu]
      exact hp u

theorem entry_keeps {p : Core Unit} {m : Phase} (hp : Keeps p m) : Keeps (entry p) m :=
  hp.bind fun _ _ => trivial

/-- The delegate may make any call while the handle is held. -/
theorem Answer.resume_held (a : Answer) {op : Op} {k : op.Res → Core Bool} {r : op.Res}
    {h : Handle} {m : Phase} (hk : Keeps (.act op k) (.held h)) (hr : (Phase.held h).admits op r)
    (hm : (Phase.held h).next op r m) (hdel : op = .inDelegate → m = .held h) :
    Keeps (a.resume op k r) m := by
  have hnext : Keeps (k r) m := hk.2 r hr m hm
  unfold resume
  split
  · split
    · rename_i c _
      obtain rfl := hdel rfl
      refine (Call.keeps h c).bind fun _ m' => ?_
      cases m' with
      | held h' => exact ⟨trivial, fun _ _ _ _ => hk.2 () trivial _ trivial⟩
      | gone => exact ⟨trivial, fun _ _ m' hm' => hk.2 () trivial m' trivial⟩
    · exact hnext
  · exact hnext

/-- A handle that is gone stays gone. -/
theorem Unarmed.bind {α β : Type} {p : Core α} {f : α → Core β} (hp : Unarmed p)
    (hf : ∀ a, Unarmed (f a)) : Unarmed (p >>= f) := by
  induction p with
  | ret a => exact hf a
  | act op k ih =>
    refine ⟨hp.1, fun r hr m hm => ?_⟩
    have hm : m = .gone := by simpa using hm
    subst hm
    exact ih r (hp.2 r hr .gone (by simp))

/-- Once the handle is gone, the delegate is to make unarmed calls only. -/
theorem Answer.resume_gone (a : Answer) {op : Op} {k : op.Res → Core Bool} {r : op.Res}
    (hk : Unarmed (k r)) (hdel : op = .inDelegate → ∀ c ∈ a.delegate, Unarmed c.body) :
    Unarmed (a.resume op k r) := by
  unfold resume
  split
  · split
    · rename_i c hc
      refine (hdel rfl c hc).bind fun _ => ⟨trivial, fun _ _ m hm => ?_⟩
      have hm : m = .gone := by simpa using hm
      subst hm
      exact hk
    · exact hk
  · exact hk

/-- An operation of a thread that follows the rules leaves the handle held, unless
    it destroys it. -/
theorem State.perform_held {s m : State} {t : Thread} {a : Answer} {op : Op} {r : op.Res}
    {h : Handle} (hd : s.destroyed = []) (hmpv : s.obj.mpv = some h) (hop : (Phase.held h).ok op)
    (hlive : ∀ h', op ≠ .call h' .detachDestroy) (hm : s.perform t a op = some (r, m)) :
    (Phase.held h).admits op r ∧ (Phase.held h).next op r (.held h) ∧
      m.destroyed = [] ∧ m.obj.mpv = some h ∧ m.misused = s.misused := by
  cases op with
  | get v =>
    cases hm
    cases v with
    | mpv => exact ⟨hmpv, rfl, hd, hmpv, rfl⟩
    | _ => exact ⟨trivial, rfl, hd, hmpv, rfl⟩
  | set v x =>
    cases hm
    cases v with
    | mpv => exact hop.elim
    | _ => exact ⟨trivial, rfl, hd, hmpv, rfl⟩
  | lock l =>
    simp only [perform, Option.ite_none_right_eq_some] at hm
    obtain ⟨_, hm⟩ := hm
    cases hm
    exact ⟨trivial, rfl, hd, hmpv, rfl⟩
  | call h' f =>
    have hh : h' = some h := hop
    have hlive' : s.Live h' := ⟨h, hh, by simp [hd]⟩
    simp only [perform, invoke, if_pos hlive', Option.some.injEq, Prod.mk.injEq] at hm
    obtain ⟨_, rfl⟩ := hm
    cases f with
    | detachDestroy => exact absurd rfl (hlive h')
    | _ => exact ⟨trivial, rfl, hd, hmpv, rfl⟩
  | inDelegate =>
    cases hm
    exact ⟨trivial, trivial, hd, hmpv, rfl⟩
  | _ =>
    cases hm
    exact ⟨trivial, rfl, hd, hmpv, rfl⟩

/-- Once the handle is gone, an operation that follows the rules calls nothing. -/
theorem State.perform_gone {s m : State} {t : Thread} {a : Answer} {op : Op} {r : op.Res}
    (hop : Phase.gone.ok op) (hq : ∀ b ∈ s.queue, b.isCommand = false)
    (hm : s.perform t a op = some (r, m)) :
    m.destroyed = s.destroyed ∧ m.misused = s.misused ∧ ∀ b ∈ m.queue, b.isCommand = false := by
  cases op with
  | call h' f => exact hop.elim
  | lock l =>
    simp only [perform, Option.ite_none_right_eq_some] at hm
    obtain ⟨_, hm⟩ := hm
    cases hm
    exact ⟨rfl, rfl, hq⟩
  | dispatch b =>
    cases hm
    refine ⟨rfl, rfl, fun b' hb => ?_⟩
    rcases List.mem_append.mp hb with hb | hb
    · exact hq b' hb
    · rw [List.mem_singleton.mp hb]
      exact hop
  | _ =>
    cases hm
    exact ⟨rfl, rfl, hq⟩

/-- Destroying the handle in use, as the state after it. -/
theorem State.perform_destroy {s m : State} {t : Thread} {a : Answer} {h : Handle} {r : Unit}
    (hd : s.destroyed = []) (hm : s.perform t a (.call (some h) .detachDestroy) = some (r, m)) :
    m = { s with executed := s.executed ++ [.detachDestroy], destroyed := [h] } := by
  have hlive : s.Live (some h) := ⟨h, rfl, by simp [hd]⟩
  simp only [perform, invoke, if_pos hlive, Option.some.injEq, Prod.mk.injEq, hd] at hm
  exact hm.2.symm

theorem Tidy.run {s s' : State} {t : Thread} {a : Answer} (hs : Tidy s) (hg : Careful s (.run t a))
    (hstep : step s (.run t a) = some s') : Tidy s' := by
  obtain ⟨op, k, r, m, hp, hm, rfl⟩ := run_cases hstep
  have hprog := State.perform_program hm
  simp only [Careful, hp] at hg
  by_cases hd : s.destroyed = []
  · obtain ⟨h, hmpv, hall⟩ := hs.held hd
    have hk : Keeps (.act op k) (.held h) := hp ▸ hall t
    by_cases hlive : ∀ h', op ≠ .call h' .detachDestroy
    · obtain ⟨hr, hnext, hd', hmpv', hmis⟩ := State.perform_held hd hmpv hk.1 hlive hm
      have hm' : Tidy m :=
        ⟨hmis.trans hs.misused, fun _ => ⟨h, hmpv', fun u => hprog ▸ hall u⟩, absurd hd'⟩
      refine hm'.goto (fun h' _ hh' => ?_) (absurd hd')
      obtain rfl : h = h' := Option.some.inj (hmpv'.symm.trans hh')
      exact a.resume_held hk hr hnext fun _ => rfl
    · obtain ⟨h', rfl⟩ : ∃ h', op = .call h' .detachDestroy := by
        by_contra hne
        exact hlive fun h' heq => hne ⟨h', heq⟩
      have hh : h' = some h := hk.1
      subst hh
      obtain ⟨hother, hq⟩ := hg
      obtain rfl := State.perform_destroy hd hm
      refine ⟨hs.misused, nofun, fun _ => ⟨fun u => ?_, hq⟩⟩
      by_cases hu : u = t
      · subst hu
        simpa using a.resume_held hk trivial rfl nofun
      · rw [State.goto_program_of_ne _ _ hu]
        exact hother u hu
  · obtain ⟨hall, hq⟩ := hs.gone hd
    have hk : Unarmed (.act op k) := hp ▸ hall t
    obtain ⟨hd', hmis, hq'⟩ := State.perform_gone hk.1 hq hm
    have hm' : Tidy m :=
      ⟨hmis.trans hs.misused, fun h => absurd (hd' ▸ h) hd, fun _ => ⟨fun u => hprog ▸ hall u, hq'⟩⟩
    refine hm'.goto (fun _ h => absurd (hd' ▸ h) hd) fun _ => a.resume_gone ?_ ?_
    · -- an answer other than null to a read of `mpv` is what the guard is about
      have hanswer : Phase.gone.admits op r → Unarmed (k r) := fun hr => hk.2 r hr .gone (by simp)
      cases op with
      | get v =>
        cases hm
        cases v with
        | mpv => exact hg hd
        | _ => exact hanswer trivial
      | _ => exact hanswer trivial
    · rintro rfl
      exact hg hd

theorem Tidy.step {s s' : State} {l : Label} (hs : Tidy s) (hg : Careful s l)
    (hstep : step s l = some s') : Tidy s' := by
  cases l with
  | call n c =>
    obtain ⟨_, rfl⟩ := call_cases hstep
    have hs' : Tidy { s with called := s.called ++ [c] } := ⟨hs.misused, hs.held, hs.gone⟩
    exact hs'.goto (fun h _ _ => entry_keeps (Call.keeps h c)) fun hd => entry_keeps (hg hd)
  | wakeup n =>
    obtain ⟨_, rfl⟩ := wakeup_cases hstep
    exact hs.goto (fun _ _ _ => entry_keeps (wakeup_keeps _)) fun _ => entry_keeps (wakeup_keeps _)
  | take =>
    obtain ⟨_, b, bs, hq, rfl⟩ := take_cases hstep
    have hs' : Tidy { s with queue := bs } :=
      ⟨hs.misused, hs.held, fun hd => ⟨(hs.gone hd).1, fun b' hb =>
        (hs.gone hd).2 b' (hq ▸ List.mem_cons_of_mem _ hb)⟩⟩
    refine hs'.goto (fun h _ _ => Block.keeps h b) fun hd => ?_
    have hb : b.isCommand = false := (hs.gone hd).2 b (hq ▸ List.mem_cons_self)
    cases b with
    | readEvents => exact readEventsPass_keeps .gone
    | _ => cases hb
  | again =>
    obtain ⟨_, rfl⟩ := again_cases hstep
    exact hs.goto (fun _ _ _ => readEventsPass_keeps _) fun _ => readEventsPass_keeps _
  | run t a => exact hs.run hg hstep

theorem tidy_of_careful {s : State} (h : session.Under Careful s) : Tidy s :=
  h.invariant (by rintro _ ⟨h, o, rfl⟩; exact .afterInitView h o) fun _ _ _ hs hg => hs.step hg

/-- In a careful run mpv is never called with a handle that is null or destroyed. -/
theorem misused_eq_nil_of_careful {s : State} (h : session.Under Careful s) : s.misused = [] :=
  (tidy_of_careful h).misused

/-- A shutdown while no other work is pending, and a call of `stop` after it. -/
theorem misused_eq_nil_after_shutDown :
    ∃ s, session.Under Careful s ∧ s.destroyed = [1] ∧ s.misused = [] := by
  have hstop : Unarmed Core.stop := by simp [Keeps, Core.stop]
  have hrun : session.Under Careful _ :=
    (Machine.Under.init (M := session) (s := State.afterInitView 1 {}) ⟨1, {}, rfl⟩).exec
      (calls 0 .shutDown 12 ++ calls 1 .stop 1)
      (by
        refine .cons (absurd rfl) rfl <| .cons trivial rfl <| .cons (absurd rfl) rfl <|
          .cons trivial rfl <| .cons trivial rfl <| .cons (absurd rfl) rfl <| .cons trivial rfl <|
          .cons trivial rfl <| .cons trivial rfl <| .cons (absurd rfl) rfl <|
          .cons ⟨fun u hu => ?_, fun b hb => ?_⟩ rfl <|
          .cons trivial rfl <| .cons trivial rfl <| .cons (fun _ => hstop) rfl <|
          .cons (fun _ => ?_) rfl ?_
        · cases u with
          | queue => exact trivial
          | caller n => cases n with
            | zero => exact absurd rfl hu
            | succ n => exact trivial
        · exact List.mem_singleton.mp hb ▸ rfl
        · exact trivial
        · trivial)
      rfl
  exact ⟨_, hrun, rfl, misused_eq_nil_of_careful hrun⟩

/-- `open` has dispatched its block when `shutDown` destroys the handle, and the
    block gives its command with the null handle. -/
theorem misused_after_open :
    ¬ ∀ s, session.Reachable s → s.misused = [] := by
  intro h
  have hrun : session.Reachable _ :=
    Machine.Reachable.exec (M := session)
      (.init (s := State.afterInitView 1 { url := some "a" }) ⟨1, _, rfl⟩)
      (calls 0 .open 4 ++ calls 0 .shutDown 12 ++ takes 1 ++ takes 3)
      rfl
  exact absurd (h _ hrun) nofun

end Session
