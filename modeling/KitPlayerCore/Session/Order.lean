-- SUMMARY: When mpv executes the commands in the order of the calls, and what the last of them leaves behind.
import KitPlayerCore.Mpv.Playback
import KitPlayerCore.Session.Machine

/-!
# The order of commands

`open`, `addSubtitle` and `addAudio` leave their command to the serial queue,
while `stop` and `seekTime` give it on the caller's thread. The commands keep the
order of the calls as long as a direct command finds none left on the queue.
-/

namespace Session

open Core Mpv Transition

abbrev Command := List CString

/-- The commands that mpv executed, in order. -/
def State.commands (s : State) : List Command :=
  s.executed.filterMap fun
    | .command args => some args
    | _ => none

/-! ## The commands of a program -/

/-- Whatever it is answered, the program gives mpv no command. -/
def Quiet {α : Type} (p : Core α) : Prop :=
  p.Safe (M := Unit)
    ⟨fun _ op => ∀ h args, op ≠ .call h (.command args), fun _ _ _ => True, fun _ _ _ _ => True⟩
    (fun _ _ => True) ()

/-- Where a program runs: on the handle `h`, with `url` set as given. -/
structure Setting where
  thread : Thread
  h : Handle
  url : Option NSString

namespace Setting

variable (e : Setting)

/-- The operation agrees with `cs` being the commands that are left to issue. The
    queue itself dispatches no command. -/
@[simp] def ok : List Command → Op → Prop
  | cs, .call h (.command args) => h = some e.h ∧ cs.head? = some args
  | _, .call _ .detachDestroy => False
  | _, .call h _ => h = some e.h
  | _, .set .mpv _ => False
  | _, .set .url _ => False
  | cs, .dispatch b =>
    b.isCommand = true → e.thread ≠ .queue ∧ cs.head? = some (b.command e.url)
  | _, _ => True

/-- What the operation may be answered. -/
@[simp] def admits : List Command → (op : Op) → op.Res → Prop
  | _, .get .mpv, r => r = some e.h
  | _, .get .url, r => r = e.url
  | _, _, _ => True

/-- The commands that are left after the operation. -/
@[simp] def next : List Command → (op : Op) → op.Res → List Command → Prop
  | cs, .call _ (.command _), _, cs' => cs' = cs.tail
  | cs, .dispatch b, _, cs' => cs' = if b.isCommand then cs.tail else cs
  | cs, _, _, cs' => cs' = cs

def rules : Program.Rules Op Op.Res (List Command) := ⟨e.ok, e.admits, next⟩

@[simp] theorem rules_ok : e.rules.ok = e.ok := rfl

@[simp] theorem rules_admits : e.rules.admits = e.admits := rfl

@[simp] theorem rules_next : e.rules.next = next := rfl

/-- The program issues exactly the commands `cs`, in this order. -/
def Issues {α : Type} (p : Core α) (cs : List Command) : Prop :=
  p.Safe e.rules (fun _ cs' => cs' = []) cs

theorem Issues.bind {α β : Type} {p : Core α} {f : α → Core β} {cs : List Command}
    (hp : e.Issues p cs) (hf : ∀ a, e.Issues (f a) []) : e.Issues (p >>= f) cs :=
  Program.Safe.bind hp fun a cs' hcs => by
    subst hcs
    exact hf a

theorem handleEvent_issues (event : Event) : e.Issues (handleEvent event) [] := by
  simp only [Issues, handleEvent, runCoreEvent]
  split <;> simp

theorem readEventsPass_issues : e.Issues readEventsPass [] := by
  have hevent (event : Event) : e.Issues (handleEvent event >>= fun _ => .ret true) [] :=
    (e.handleEvent_issues event).bind _ fun _ => rfl
  simpa [Issues, readEventsPass] using fun event _ => hevent event

theorem wakeup_issues : e.Issues (entry Core.wakeup) [] := by
  simp [Issues, entry, Core.wakeup, readEvents, Block.isCommand]

theorem Block.issues (b : Block) :
    e.Issues b.body (if b.isCommand then [b.command e.url] else []) := by
  cases b with
  | readEvents => exact e.readEventsPass_issues
  | loadfile => simp [Issues, Block.body, runCommand, Block.isCommand]
  | subAdd str => simp [Issues, Block.body, runCommand, Block.isCommand, Block.command]
  | audioAdd str => simp [Issues, Block.body, runCommand, Block.isCommand, Block.command]

/-- A call issues the command that it is for. -/
theorem Call.issues {c : Call} {args : Command} (ht : e.thread ≠ .queue)
    (hc : c.command e.url = some args) : e.Issues (entry c.body) [args] := by
  cases c with
  | «open» =>
    obtain ⟨url, hurl, rfl⟩ := Option.map_eq_some_iff.mp hc
    simp [Issues, entry, Call.body, Core.open, hurl, Block.isCommand, ht]
  | stop =>
    cases hc
    simp [Issues, entry, Call.body, Core.stop]
  | seekTime time isExa =>
    cases hc
    simp [Issues, entry, Call.body, Core.seekTime]
  | addSubtitle str =>
    cases hc
    simp [Issues, entry, Call.body, Core.addSubtitle, Block.isCommand, ht]
  | addAudio str =>
    cases hc
    simp [Issues, entry, Call.body, Core.addAudio, Block.isCommand, ht]
  | _ => cases hc

/-- Every operation has an answer that is admitted. -/
theorem exists_admitted (cs : List Command) (op : Op) : ∃ r, e.rules.admits cs op r := by
  cases op with
  | get v => cases v with
    | mpv => exact ⟨some e.h, rfl⟩
    | url => exact ⟨e.url, rfl⟩
    | subArray | audioArray => exact ⟨([] : List Track), trivial⟩
    | optionDic | headerDic | avOptionDic => exact ⟨(none : Option NSDictionary), trivial⟩
    | resumeTime => exact ⟨(0 : Float), trivial⟩
    | _ => exact ⟨false, trivial⟩
  | call h f => exact ⟨({} : Answer).api f, trivial⟩
  | initWithCString p => exact ⟨none, trivial⟩
  | uninitialized => exact ⟨(0 : Float), trivial⟩
  | _ => exact ⟨(), trivial⟩

/-- The queue issues nothing more in a program that gives no command. -/
theorem Issues.eq_nil {α : Type} {p : Core α} {cs : List Command} (he : e.thread = .queue)
    (hp : e.Issues p cs) (hquiet : Quiet p) : cs = [] := by
  induction p with
  | ret a => exact hp
  | act op k ih =>
    obtain ⟨r, hr⟩ := e.exists_admitted cs op
    have hnext : e.rules.next cs op r cs := by
      cases op with
      | call h f => cases f with
        | command args => exact absurd rfl (hquiet.1 h args)
        | _ => rfl
      | dispatch b =>
        have hb : ¬ b.isCommand = true := fun hb => (hp.1 hb).1 he
        simp [hb]
      | _ => rfl
    exact ih r (hp.2 r hr cs hnext) (hquiet.2 r trivial () trivial)

end Setting

/-! ## Steps -/

/-- The commands of the pending blocks. -/
def queued (url : Option NSString) (bs : List Block) : List Command :=
  (bs.filter Block.isCommand).map (Block.command url)

theorem queued_registered (url : Option NSString) (o : Object) : queued url (registered o) = [] := by
  have hnone : ∀ b ∈ registered o, ¬ b.isCommand = true := fun b hb =>
    eq_of_mem_registered hb ▸ nofun
  simp [queued, List.filter_eq_nil_iff.mpr hnone]

theorem Answer.resume_of_delegate {a : Answer} (ha : a.delegate = none) {op : Op}
    (k : op.Res → Core Bool) (r : op.Res) : a.resume op k r = k r := by
  unfold resume
  split
  · rw [ha]
  · rfl

/-- What an operation that agrees with the commands left does to them: it gives the
    next one, it dispatches it, or it leaves them. -/
theorem State.perform_command {s m : State} {t : Thread} {a : Answer} {op : Op} {r : op.Res}
    {h : Handle} {cs : List Command} (hd : s.destroyed = []) (hmpv : s.obj.mpv = some h)
    (hop : (Setting.mk t h s.obj.url).ok cs op) (hm : s.perform t a op = some (r, m)) :
    (Setting.mk t h s.obj.url).admits cs op r ∧ m.destroyed = [] ∧ m.obj.mpv = some h ∧
      m.obj.url = s.obj.url ∧ m.called = s.called ∧ ∃ cs', Setting.next cs op r cs' ∧
      ((∃ h' args, op = .call h' (.command args) ∧ cs = args :: cs' ∧
          m.commands = s.commands ++ [args] ∧ m.queue = s.queue) ∨
        (∃ b, t ≠ .queue ∧ cs = b.command s.obj.url :: cs' ∧ b.isCommand = true ∧
          m.commands = s.commands ∧ m.queue = s.queue ++ [b]) ∨
        (cs' = cs ∧ m.commands = s.commands ∧
          queued s.obj.url m.queue = queued s.obj.url s.queue)) := by
  cases op with
  | get v =>
    cases hm
    cases v with
    | mpv => exact ⟨hmpv, hd, hmpv, rfl, rfl, cs, rfl, .inr (.inr ⟨rfl, rfl, rfl⟩)⟩
    | url => exact ⟨rfl, hd, hmpv, rfl, rfl, cs, rfl, .inr (.inr ⟨rfl, rfl, rfl⟩)⟩
    | _ => exact ⟨trivial, hd, hmpv, rfl, rfl, cs, rfl, .inr (.inr ⟨rfl, rfl, rfl⟩)⟩
  | set v x =>
    cases hm
    cases v with
    | mpv | url => exact hop.elim
    | _ => exact ⟨trivial, hd, hmpv, rfl, rfl, cs, rfl, .inr (.inr ⟨rfl, rfl, rfl⟩)⟩
  | lock l =>
    simp only [perform, Option.ite_none_right_eq_some] at hm
    obtain ⟨_, hm⟩ := hm
    cases hm
    exact ⟨trivial, hd, hmpv, rfl, rfl, cs, rfl, .inr (.inr ⟨rfl, rfl, rfl⟩)⟩
  | dispatch b =>
    cases hm
    refine ⟨trivial, hd, hmpv, rfl, rfl, _, rfl, ?_⟩
    by_cases hb : b.isCommand = true
    · obtain ⟨ht, hcs⟩ := hop hb
      obtain ⟨cs', rfl⟩ := List.head?_eq_some_iff.mp hcs
      exact .inr (.inl ⟨b, ht, by simp [hb], hb, rfl, rfl⟩)
    · exact .inr (.inr ⟨by simp [hb], rfl, by simp [queued, hb]⟩)
  | call h' f =>
    have hh : h' = some h := by
      cases f with
      | command args => exact hop.1
      | detachDestroy => exact hop.elim
      | _ => exact hop
    have hlive : s.Live h' := ⟨h, hh, by simp [hd]⟩
    simp only [perform, invoke, if_pos hlive, Option.some.injEq, Prod.mk.injEq] at hm
    obtain ⟨_, rfl⟩ := hm
    cases f with
    | detachDestroy => exact hop.elim
    | command args =>
      obtain ⟨cs', rfl⟩ := List.head?_eq_some_iff.mp hop.2
      exact ⟨trivial, hd, hmpv, rfl, rfl, cs', rfl,
        .inl ⟨h', args, rfl, rfl, by simp [commands], rfl⟩⟩
    | _ => exact ⟨trivial, hd, hmpv, rfl, rfl, cs, rfl, .inr (.inr ⟨rfl, by simp [commands], rfl⟩)⟩
  | _ =>
    cases hm
    exact ⟨trivial, hd, hmpv, rfl, rfl, cs, rfl, .inr (.inr ⟨rfl, rfl, rfl⟩)⟩

/-! ## Runs -/

/-- One thread makes the calls, all of them calls for a command, and `open` only
    with `url` set. A command that is given on the caller's thread, by `stop` or
    `seekTime`, is given when no command block is pending or running. -/
def Ordered (s : State) : Label → Prop
  | .call n c => n = 0 ∧ c.command s.obj.url ≠ none
  | .wakeup n => n ≠ 0
  | .take | .again => True
  | .run t a => a.delegate = none ∧
    (t = .caller 0 → ∀ h args k, s.program t = .act (.call h (.command args)) k →
      (∀ b ∈ s.queue, b.isCommand = false) ∧ Quiet (s.program .queue))

/-- Every thread is to issue the commands `left`, and the commands of the calls
    are, in order, those that mpv executed, the one that the queue is about to give,
    those of the pending blocks, and the one that the caller is about to give or to
    dispatch. -/
structure InOrder (h : Handle) (left : Thread → List Command) (s : State) : Prop where
  destroyed : s.destroyed = []
  mpv : s.obj.mpv = some h
  threads : ∀ t, (Setting.mk t h s.obj.url).Issues (s.program t) (left t)
  others : ∀ n ≠ 0, left (.caller n) = []
  called : s.called.map (Call.command s.obj.url) =
    (s.commands ++ left .queue ++ queued s.obj.url s.queue ++ left (.caller 0)).map some

theorem InOrder.afterInitView (h : Handle) (o : Object) :
    InOrder h (fun _ => []) (.afterInitView h o) where
  destroyed := rfl
  mpv := rfl
  threads _ := rfl
  others _ _ := rfl
  called := by simp [State.afterInitView, State.commands, queued_registered]

/-- A thread with nothing left to do has nothing left to issue. -/
theorem InOrder.left_eq_nil {h : Handle} {left : Thread → List Command} {s : State}
    (hs : InOrder h left s) {t : Thread} {b : Bool} (hp : s.program t = .ret b) : left t = [] := by
  have := hs.threads t
  rw [hp] at this
  exact this

/-- The thread `t` goes on with a program that issues `cs`. -/
theorem InOrder.goto {h : Handle} {left : Thread → List Command} {s m : State}
    (hs : InOrder h left s) {t : Thread} {p : Core Bool} {cs : List Command}
    (hd : m.destroyed = []) (hmpv : m.obj.mpv = some h) (hurl : m.obj.url = s.obj.url)
    (hprog : m.program = s.program) (hp : (Setting.mk t h s.obj.url).Issues p cs)
    (hother : ∀ n ≠ 0, t = .caller n → cs = [])
    (hcalled : m.called.map (Call.command s.obj.url) =
      (m.commands ++ Function.update left t cs .queue ++ queued s.obj.url m.queue ++
        Function.update left t cs (.caller 0)).map some) :
    InOrder h (Function.update left t cs) (m.goto t p) where
  destroyed := hd
  mpv := hmpv
  threads u := by
    by_cases hu : u = t
    · subst hu
      simpa [hurl] using hp
    · simpa [State.goto_program, hurl, hprog, hu] using hs.threads u
  others n hn := by
    by_cases ht : Thread.caller n = t
    · simpa [ht] using hother n hn ht.symm
    · simpa [Function.update_of_ne ht] using hs.others n hn
  called := by simpa [hurl, State.commands] using hcalled

theorem InOrder.call {h : Handle} {left : Thread → List Command} {s s' : State}
    (hs : InOrder h left s) {n : Nat} {c : Call} (hg : Ordered s (.call n c))
    (hstep : step s (.call n c) = some s') : ∃ left, InOrder h left s' := by
  obtain ⟨rfl, hc⟩ := hg
  obtain ⟨args, hc⟩ := Option.ne_none_iff_exists'.mp hc
  obtain ⟨⟨b, hp⟩, rfl⟩ := call_cases hstep
  have hissues := Setting.Call.issues ⟨.caller 0, h, s.obj.url⟩ (by simp) hc
  refine ⟨_, hs.goto (m := { s with called := s.called ++ [c] }) hs.destroyed hs.mpv rfl rfl hissues
    (fun n hn ht => absurd (Thread.caller.inj ht).symm hn) ?_⟩
  simp [hs.called, hs.left_eq_nil hp, hc, State.commands]

theorem InOrder.wakeup {h : Handle} {left : Thread → List Command} {s s' : State}
    (hs : InOrder h left s) {n : Nat} (hg : Ordered s (.wakeup n))
    (hstep : step s (.wakeup n) = some s') : ∃ left, InOrder h left s' := by
  have hn : n ≠ 0 := hg
  obtain ⟨_, rfl⟩ := wakeup_cases hstep
  refine ⟨_, hs.goto hs.destroyed hs.mpv rfl rfl (Setting.wakeup_issues _) (fun _ _ _ => rfl) ?_⟩
  have hne : Thread.caller 0 ≠ .caller n := by simpa using hn.symm
  simpa [Function.update_of_ne hne] using hs.called

theorem InOrder.take {h : Handle} {left : Thread → List Command} {s s' : State}
    (hs : InOrder h left s) (hstep : step s .take = some s') : ∃ left, InOrder h left s' := by
  obtain ⟨hp, b, bs, hq, rfl⟩ := take_cases hstep
  refine ⟨_, hs.goto (m := { s with queue := bs }) hs.destroyed hs.mpv rfl rfl
    (Setting.Block.issues _ b) (fun _ _ ht => by cases ht) ?_⟩
  have hcalled := hs.called
  rw [hq, hs.left_eq_nil hp] at hcalled
  by_cases hb : b.isCommand = true <;> simpa [queued, hb, State.commands] using hcalled

theorem InOrder.again {h : Handle} {left : Thread → List Command} {s s' : State}
    (hs : InOrder h left s) (hstep : step s .again = some s') : ∃ left, InOrder h left s' := by
  obtain ⟨hp, rfl⟩ := again_cases hstep
  refine ⟨_, hs.goto hs.destroyed hs.mpv rfl rfl (Setting.readEventsPass_issues _)
    (fun _ _ _ => rfl) ?_⟩
  simpa [hs.left_eq_nil hp] using hs.called

/-- The commands of the calls after an operation of a thread with `cs` left. -/
private theorem InOrder.called_step {h : Handle} {left : Thread → List Command} {s m : State}
    (hs : InOrder h left s) {t : Thread} {op : Op} {cs' : List Command}
    (hdirect : t = .caller 0 → (∃ h' args, op = .call h' (.command args)) →
      left .queue = [] ∧ queued s.obj.url s.queue = [])
    (hcs : (∃ h' args, op = .call h' (.command args) ∧ left t = args :: cs' ∧
        m.commands = s.commands ++ [args] ∧ m.queue = s.queue) ∨
      (∃ b, t ≠ .queue ∧ left t = b.command s.obj.url :: cs' ∧ b.isCommand = true ∧
        m.commands = s.commands ∧ m.queue = s.queue ++ [b]) ∨
      (cs' = left t ∧ m.commands = s.commands ∧
        queued s.obj.url m.queue = queued s.obj.url s.queue)) :
    s.commands ++ left .queue ++ queued s.obj.url s.queue ++ left (.caller 0) =
      m.commands ++ Function.update left t cs' .queue ++ queued s.obj.url m.queue ++
        Function.update left t cs' (.caller 0) := by
  rcases hcs with ⟨h', args, hop, hcs, hcom, hq⟩ | ⟨b, ht, hcs, hb, hcom, hq⟩ | ⟨rfl, hcom, hq⟩
  · rw [hcom, hq]
    cases t with
    | queue => simp [hcs]
    | caller n => cases n with
      | zero =>
        obtain ⟨hnil, hqueued⟩ := hdirect rfl ⟨h', args, hop⟩
        simp [hcs, hnil, hqueued]
      | succ n => simp [hs.others (n + 1) (by omega)] at hcs
  · rw [hcom, hq]
    cases t with
    | queue => exact absurd rfl ht
    | caller n => cases n with
      | zero => simp [hcs, queued, hb]
      | succ n => simp [hs.others (n + 1) (by omega)] at hcs
  · rw [hcom, hq, Function.update_eq_self]

theorem InOrder.run {h : Handle} {left : Thread → List Command} {s s' : State}
    (hs : InOrder h left s) {t : Thread} {a : Answer} (hg : Ordered s (.run t a))
    (hstep : step s (.run t a) = some s') : ∃ left, InOrder h left s' := by
  obtain ⟨op, k, r, m, hp, hm, rfl⟩ := run_cases hstep
  obtain ⟨hdel, hdirect⟩ := hg
  have hissues : (Setting.mk t h s.obj.url).Issues (.act op k) (left t) := hp ▸ hs.threads t
  obtain ⟨hr, hd, hmpv, hurl, hcalled, cs', hnext, hcs⟩ :=
    State.perform_command hs.destroyed hs.mpv hissues.1 hm
  rw [Answer.resume_of_delegate hdel]
  refine ⟨_, hs.goto (m := m) hd hmpv hurl (State.perform_program hm)
    (hissues.2 r hr cs' hnext) ?_ ?_⟩
  · rintro n hn rfl
    have hleft := hs.others n hn
    rcases hcs with ⟨_, _, _, hcs, _⟩ | ⟨_, _, hcs, _⟩ | ⟨rfl, _⟩
    · simp [hcs] at hleft
    · simp [hcs] at hleft
    · exact hleft
  · rw [hcalled, hs.called, hs.called_step ?_ hcs]
    rintro rfl ⟨h', args, rfl⟩
    obtain ⟨hq, hquiet⟩ := hdirect rfl h' args k hp
    refine ⟨Setting.Issues.eq_nil _ rfl (hs.threads .queue) hquiet, ?_⟩
    simpa [queued] using hq

theorem InOrder.step {h : Handle} {left : Thread → List Command} {s s' : State} {l : Label}
    (hs : InOrder h left s) (hg : Ordered s l) (hstep : step s l = some s') :
    ∃ left, InOrder h left s' := by
  cases l with
  | call n c => exact hs.call hg hstep
  | wakeup n => exact hs.wakeup hg hstep
  | take => exact hs.take hstep
  | again => exact hs.again hstep
  | run t a => exact hs.run hg hstep

theorem inOrder_of_ordered {s : State} (h : session.Under Ordered s) :
    ∃ h left, InOrder h left s := by
  refine h.invariant (I := fun s => ∃ h left, InOrder h left s) ?_ ?_
  · rintro _ ⟨h, o, rfl⟩
    exact ⟨h, _, .afterInitView h o⟩
  · rintro s s' l ⟨h, left, hs⟩ hg hstep
    exact ⟨h, hs.step hg hstep⟩

/-! ## What the commands leave behind -/

/-- The caller has returned, and no command block is pending or running. -/
def State.Drained (s : State) : Prop :=
  (∃ b, s.program (.caller 0) = .ret b) ∧ (∀ b ∈ s.queue, b.isCommand = false) ∧
    Quiet (s.program .queue)

/-- The command as a step of mpv's core. -/
def playbackLabel : Command → PlaybackLabel CString
  | [name, url] => if name = cstr "loadfile" then .loadfile url else .other
  | [name] => if name = cstr "stop" then .stop else .other
  | _ => .other

/-- However mpv's core starts, and whatever it does between the commands, it is
    stopped after the commands that were executed. -/
def State.MpvStops (s : State) : Prop :=
  ∀ (p p' : Playback CString) (ls : List (PlaybackLabel CString)), p.stopPlay ≠ .quit →
    ls.filter PlaybackLabel.isCommand = s.commands.map playbackLabel →
    (playback CString).exec p ls = some p' → p'.Stopped

theorem InOrder.commands_of_drained {h : Handle} {left : Thread → List Command} {s : State}
    (hs : InOrder h left s) (hd : s.Drained) :
    s.commands.map some = s.called.map (Call.command s.obj.url) := by
  obtain ⟨⟨b, hp⟩, hq, hquiet⟩ := hd
  have hqueued : queued s.obj.url s.queue = [] := by simpa [queued] using hq
  have hleft : left .queue = [] := Setting.Issues.eq_nil _ rfl (hs.threads .queue) hquiet
  rw [hs.called, hqueued, hleft, hs.left_eq_nil hp]
  simp

/-- Commands that are those of calls of which `stop` is the last leave mpv stopped. -/
theorem State.mpvStops_of_last {s : State}
    (hs : s.commands.map some = s.called.map (Call.command s.obj.url))
    (hlast : s.called.getLast? = some .stop) : s.MpvStops := by
  intro p p' ls hquit hls he
  obtain ⟨calls, hcalls⟩ := List.getLast?_eq_some_iff.mp hlast
  rw [hcalls, List.map_append, List.map_eq_append_iff] at hs
  obtain ⟨cs, last, hcs, _, hstop⟩ := hs
  have hlast : last = [[cstr "stop"]] := by
    obtain ⟨c, cs', rfl, hc, hcs'⟩ := List.map_eq_cons_iff.mp hstop
    rw [List.map_eq_nil_iff.mp hcs', Option.some.inj hc]
  rw [hcs, hlast, List.map_append] at hls
  have hlabel : playbackLabel [cstr "stop"] = .stop := by simp [playbackLabel]
  rw [List.map_singleton, hlabel] at hls
  exact Playback.stopped_of_last_command hls hquit he

/-- In an ordered run mpv has executed the commands of the first calls in the order
    of the calls, and the commands of all calls once none is left; if the last call
    is `stop`, mpv then ends up stopped. -/
theorem commands_eq_calls_of_ordered {s : State} (h : session.Under Ordered s) :
    s.commands.map some <+: s.called.map (Call.command s.obj.url) ∧
      (s.Drained → s.commands.map some = s.called.map (Call.command s.obj.url)) ∧
      (s.Drained → s.called.getLast? = some .stop → s.MpvStops) := by
  obtain ⟨_, left, hs⟩ := inOrder_of_ordered h
  refine ⟨?_, hs.commands_of_drained, fun hd => State.mpvStops_of_last (hs.commands_of_drained hd)⟩
  rw [hs.called, List.append_assoc, List.append_assoc, List.map_append]
  exact List.prefix_append _ _

/-- The block of `open` has run when `stop` is called. -/
theorem commands_eq_calls_after_block :
    ∃ s, session.Under Ordered s ∧ s.commands = [[cstr "loadfile", cstr "a"], [cstr "stop"]] ∧
      s.MpvStops := by
  have hrun : session.Under Ordered _ :=
    (Machine.Under.init (M := session) (s := State.afterInitView 1 { url := some "a" })
      ⟨1, _, rfl⟩).exec
      (calls 0 .open 4 ++ takes 4 ++ takes 3 ++ calls 0 .stop 3)
      (by
        have hqueue {s : State} : Ordered s (.run .queue {}) := ⟨rfl, nofun⟩
        have htest {s : State} {op : Op} {k : op.Res → Core Bool}
            (hp : s.program (.caller 0) = .act op k) (hop : ∀ h f, op ≠ .call h f) :
            Ordered s (.run (.caller 0) {}) := by
          refine ⟨rfl, fun _ h args k' hp' => ?_⟩
          cases hp.symm.trans hp'
          exact absurd rfl (hop h _)
        refine .cons ⟨rfl, nofun⟩ rfl <| .cons (htest rfl nofun) rfl <|
          .cons (htest rfl nofun) rfl <| .cons (htest rfl nofun) rfl <|
          .cons (htest rfl nofun) rfl <|
          .cons trivial rfl <| .cons hqueue rfl <| .cons hqueue rfl <| .cons hqueue rfl <|
          .cons hqueue rfl <|
          .cons trivial rfl <| .cons hqueue rfl <| .cons hqueue rfl <| .cons hqueue rfl <|
          .cons ⟨rfl, nofun⟩ rfl <| .cons (htest rfl nofun) rfl <| .cons (htest rfl nofun) rfl <|
          .cons ⟨rfl, fun _ _ _ _ _ => ⟨nofun, trivial⟩⟩ rfl trivial)
      rfl
  exact ⟨_, hrun, rfl, (commands_eq_calls_of_ordered hrun).2.2 ⟨⟨_, rfl⟩, nofun, trivial⟩ rfl⟩

/-- One thread makes the calls, all of them calls for a command, and `open` only with `url` set.
    Nothing is said about when a command is given. -/
def Commanding (s : State) : Label → Prop
  | .call n c => n = 0 ∧ c.command s.obj.url ≠ none
  | .wakeup n => n ≠ 0
  | .take | .again => True
  | .run _ a => a.delegate = none

/-- `stop` is called before the block of `open` has run, and mpv ends up playing. -/
theorem commands_out_of_order :
    ¬ ∀ s, session.Under Commanding s → s.Drained →
      s.commands.map some = s.called.map (Call.command s.obj.url) ∧
        (s.called.getLast? = some .stop → s.MpvStops) := by
  intro h
  have hrun : session.Under Commanding _ :=
    (Machine.Under.init (M := session) (s := State.afterInitView 1 { url := some "a" })
      ⟨1, _, rfl⟩).exec
      (calls 0 .open 4 ++ calls 0 .stop 3 ++ takes 4 ++ takes 3)
      (.cons ⟨rfl, nofun⟩ rfl <| .cons rfl rfl <| .cons rfl rfl <| .cons rfl rfl <|
        .cons rfl rfl <| .cons ⟨rfl, nofun⟩ rfl <| .cons rfl rfl <| .cons rfl rfl <|
        .cons rfl rfl <| .cons trivial rfl <| .cons rfl rfl <| .cons rfl rfl <| .cons rfl rfl <|
        .cons rfl rfl <| .cons trivial rfl <| .cons rfl rfl <| .cons rfl rfl <| .cons rfl rfl trivial)
      rfl
  have hstops : State.MpvStops _ := (h _ hrun ⟨⟨_, rfl⟩, nofun, trivial⟩).2 rfl
  have hstopped := hstops {} _ [.stop, .loadfile (cstr "a")] nofun rfl rfl
  cases hstopped.1

end Session
