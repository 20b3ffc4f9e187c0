-- SUMMARY: That every call of `addSubtitle:` or `addAudio:` gets a result of its own, and that its file is added to the opened item while mpv is ready.
import KitPlayerCore.Session.Attachment

/-!
# What the calls lead to

The calls are recorded when they are made, and the results when the commands return. In between
a call is in the hands of the caller, in a block of the queue, or in a command that is under way.
-/

namespace Attachment

open Core Mpv Transition Program

/-! ## The files -/

/-- The block gives a command that adds a track. -/
def isAdd : Block → Bool
  | .subAdd _ | .audioAdd _ => true
  | .readEvents | .loadfile => false

/-- The commands that the blocks are to give and that add a track. -/
def adds (queue : List Block) : List (List CString) := (queue.filter isAdd).map (Block.command none)

/-- The rules of what adds a track: modes have the commands that are left. They are given, or left
    to a block. -/
@[simp] def addRules : Rules Op Op.Res (List (List CString)) where
  ok
    | cs, .call _ (.command c) => isTrackAdd c = true → cs.head? = some c
    | cs, .dispatch b => isAdd b = true → cs.head? = some (b.command none)
    | _, _ => True
  admits
    | _, .get .mpv, r => r ≠ none
    | _, _, _ => True
  next
    | cs, .call _ (.command c), _, cs' => cs' = if isTrackAdd c then cs.tail else cs
    | cs, .dispatch b, _, cs' => cs' = if isAdd b then cs.tail else cs
    | cs, _, _, cs' => cs' = cs

/-- The program adds the tracks of the commands `cs`, in this order. -/
def Adds {α : Type} (p : Core α) (cs : List (List CString)) : Prop :=
  p.Safe addRules (fun _ cs' => cs' = []) cs

theorem isTrackAdd_of_isAdd {b : Block} (hb : isAdd b = true) (url : Option NSString) :
    isTrackAdd (b.command url) = true ∧ b.command url = b.command none := by
  cases b with
  | subAdd str | audioAdd str => exact ⟨by simp [isTrackAdd, Block.command], rfl⟩
  | readEvents | loadfile => cases hb

theorem adds_open : Adds Core.open [] := by
  simp [Adds, Core.open, isAdd]

theorem adds_addSubtitle (str : NSString) :
    Adds (Core.addSubtitle str) [(Block.subAdd str).command none] := by
  simp [Adds, Core.addSubtitle, isAdd]

theorem adds_addAudio (str : NSString) :
    Adds (Core.addAudio str) [(Block.audioAdd str).command none] := by
  simp [Adds, Core.addAudio, isAdd]

theorem adds_of_eventOk {α : Type} {p : Core α} (hp : Only eventOk p) : Adds p [] := by
  refine hp.safe (I := (· = [])) rfl ?_ ?_
  · rintro _ op rfl hop
    cases op with
    | call h f => cases f <;> trivial
    | dispatch => exact hop.elim
    | _ => trivial
  · rintro _ op r m' rfl hop hm
    cases op with
    | call h f => cases f <;> first | exact hm | cases hop
    | dispatch => exact hop.elim
    | _ => exact hm

theorem adds_body (b : Block) : Adds b.body (adds [b]) := by
  cases b with
  | readEvents => exact adds_of_eventOk readEventsPass_eventOk
  | loadfile => simp [Adds, Block.body, runCommand, adds, isAdd, isTrackAdd_loadfile]
  | subAdd str =>
    have hadd := (isTrackAdd_of_isAdd (b := .subAdd str) rfl none).1
    simp [Adds, Block.body, runCommand, adds, isAdd, hadd]
    exact fun _ _ => rfl
  | audioAdd str =>
    have hadd := (isTrackAdd_of_isAdd (b := .audioAdd str) rfl none).1
    simp [Adds, Block.body, runCommand, adds, isAdd, hadd]
    exact fun _ _ => rfl

theorem adds_cons (b : Block) (queue : List Block) : adds (b :: queue) = adds [b] ++ adds queue := by
  cases hb : isAdd b <;> simp [adds, hb]

/-- What the worker has left to give. A command that is under way was given. -/
def Worker.Adds : Worker → List (List CString) → Prop
  | .run p, cs => Attachment.Adds p cs
  | .issued c _ k, cs | .opening c _ k, cs => ∃ cs', cs = c :: cs' ∧ ∀ r, Attachment.Adds (k r) cs'

/-- Every call has its result, or its command is still to come. -/
structure InTurn (s : State) (left calls : List (List CString)) : Prop where
  worker : s.worker.Adds left
  caller : Adds s.caller calls
  added : s.added = s.results.map Result.command ++ left ++ adds s.queue ++ calls

variable {s s' : State} {left calls : List (List CString)}

/-- The caller has nothing left to add when it has returned. -/
theorem InTurn.calls_eq_nil (h : InTurn s left calls) {u : Unit} (hcaller : s.caller = .ret u) :
    calls = [] := by
  have hadds := h.caller
  rwa [hcaller] at hadds

/-- The caller begins a method that adds the tracks of `cs`. -/
theorem InTurn.begin {t : State} {p : Core Unit} {cs : List (List CString)} (h : InTurn s left calls)
    (hp : Adds p cs) (hworker : t.worker = s.worker) (hresults : t.results = s.results)
    (hqueue : t.queue = s.queue) (hcaller : t.caller = s.caller) (hadded : t.added = s.added ++ cs)
    (hs : t.begin p = some s') : InTurn s' left cs := by
  simp only [State.begin] at hs
  split at hs
  · rename_i u hret
    cases hs
    have hnil := h.calls_eq_nil (hcaller ▸ hret)
    refine ⟨hworker ▸ h.worker, hp, ?_⟩
    change t.added = t.results.map Result.command ++ left ++ adds t.queue ++ cs
    rw [hadded, hresults, hqueue, h.added, hnil, List.append_nil]
  · cases hs

theorem InTurn.add {p : Core Unit} {b : Block} (h : InTurn s left calls)
    (hp : Adds p [b.command none]) (hs : s.add p b = some s') : InTurn s' left [b.command none] :=
  h.begin (t := { s with added := s.added ++ [b.command none] }) hp rfl rfl rfl rfl rfl hs

/-- The caller goes on. -/
theorem InTurn.runCaller (ho : Ordered s) (h : InTurn s left calls)
    (hs : Attachment.step s .caller = some s') : ∃ calls', InTurn s' left calls' := by
  simp only [Attachment.step] at hs
  split at hs
  · cases hs
  · rename_i op k hcaller
    cases hs
    obtain ⟨m, -, ⟨-, -, hret⟩ | ⟨-, hcalls⟩⟩ := ho.phase
    · rw [hcaller] at hret
      cases hret
    rw [hcaller] at hcalls
    have hadds := h.caller
    rw [hcaller] at hadds
    obtain ⟨hok, hrest⟩ := hadds
    have hmode := hcalls.1
    cases op with
    | get v =>
      refine ⟨calls, h.worker, hrest _ ?_ calls rfl, h.added⟩
      cases v <;> first | exact ho.mpv | trivial
    | set v x => exact ⟨calls, h.worker, hrest () trivial calls rfl, h.added⟩
    | dispatch b =>
      refine ⟨_, h.worker, hrest () trivial _ rfl, ?_⟩
      have hadded := h.added
      cases hb : isAdd b with
      | false => simpa [State.perform, adds, hb] using hadded
      | true =>
        obtain ⟨cs, rfl⟩ := List.head?_eq_some_iff.mp (hok hb)
        simpa [State.perform, adds, hb] using hadded
    | lock | unlock | call | glCall | free | initWithCString | uninitialized | deliver
    | inDelegate => cases m <;> exact hmode.elim

/-- The queue goes on with a block, otherwise than with a command. -/
theorem InTurn.perform (ho : Ordered s) (h : InTurn s left calls) (e : Event) {op : Op}
    {k : op.Res → Core Bool} (hworker : s.worker = .run (.act op k))
    (hcommand : ∀ hd c, op ≠ .call hd (.command c)) :
    InTurn { (s.perform e op).2 with worker := .run (k (s.perform e op).1) } left calls := by
  obtain ⟨m, hp, -⟩ := ho.phase
  rw [hworker] at hp
  have hwork := (hp.operation hcommand).1
  obtain ⟨hsame, -, -⟩ := perform_frame s e hwork
  obtain ⟨-, hrest⟩ : Adds (.act op k) left := by
    have hadds := h.worker
    rwa [hworker] at hadds
  rw [hsame]
  refine ⟨hrest _ ?_ left ?_, h.caller, h.added⟩
  · cases op with
    | get v => cases v <;> first | exact ho.mpv | trivial
    | _ => trivial
  · cases op with
    | call hd f => cases f with
      | command c => exact absurd rfl (hcommand hd c)
      | _ => rfl
    | dispatch => exact hwork.elim
    | _ => rfl

/-- The queue gives a command. -/
theorem InTurn.command (h : InTurn s left calls) {hd : Option Handle} {c : List CString}
    {k : Int → Core Bool} (hworker : s.worker = .run (.act (.call hd (.command c)) k)) :
    InTurn (s.command c k) left calls := by
  obtain ⟨hok, hrest⟩ : Adds (.act (.call hd (.command c)) k) left := by
    have hadds := h.worker
    rwa [hworker] at hadds
  unfold State.command
  cases hc : isTrackAdd c with
  | true =>
    obtain ⟨cs, rfl⟩ := List.head?_eq_some_iff.mp (hok hc)
    rw [if_pos rfl]
    exact ⟨⟨cs, rfl, fun r => hrest r trivial cs (by simp [hc])⟩, h.caller, h.added⟩
  | false =>
    have hnext : Adds (k 0) left := hrest 0 trivial left (by simp [hc])
    rw [if_neg (by simp)]
    split <;> exact ⟨hnext, h.caller, h.added⟩

/-- `cmd_track_add` is over, and its result is recorded. -/
theorem InTurn.complete (h : InTurn s left calls) {c : List CString} {k : Int → Core Bool}
    (hworker : ∃ cs, left = c :: cs ∧ ∀ r, Adds (k r) cs) (item : Option Nat) :
    ∃ left', InTurn (s.complete c item k) left' calls := by
  obtain ⟨cs, rfl, hk⟩ := hworker
  refine ⟨cs, hk _, h.caller, ?_⟩
  simpa [State.complete] using h.added

theorem InTurn.step {l : Label} (ho : Ordered s) (h : InTurn s left calls)
    (hs : Attachment.step s l = some s') : ∃ left' calls', InTurn s' left' calls' := by
  have hadds := h.worker
  cases l with
  | «open» =>
    obtain ⟨-, hs⟩ := Option.ite_none_left_eq_some.mp hs
    exact ⟨left, [], h.begin (t := { s with opened := true }) adds_open rfl rfl rfl rfl (by simp) hs⟩
  | addSubtitle str =>
    obtain ⟨-, hs⟩ := Option.ite_none_right_eq_some.mp hs
    exact ⟨left, _, h.add (adds_addSubtitle str) hs⟩
  | addAudio str =>
    obtain ⟨-, hs⟩ := Option.ite_none_right_eq_some.mp hs
    exact ⟨left, _, h.add (adds_addAudio str) hs⟩
  | caller => exact ⟨left, h.runCaller ho hs⟩
  | wakeup =>
    cases hs
    exact ⟨left, calls, h.worker, h.caller, by simpa [adds, isAdd] using h.added⟩
  | take =>
    simp only [Attachment.step] at hs
    split at hs
    · rename_i b queue hworker hqueue
      cases hs
      rw [hworker] at hadds
      obtain rfl : left = [] := hadds
      refine ⟨adds [b], calls, adds_body b, h.caller, ?_⟩
      have hadded := h.added
      rw [hqueue, adds_cons] at hadded
      simpa using hadded
    · cases hs
  | again =>
    simp only [Attachment.step] at hs
    split at hs
    · rename_i hworker
      cases hs
      rw [hworker] at hadds
      obtain rfl : left = [] := hadds
      exact ⟨[], calls, adds_body .readEvents, h.caller, h.added⟩
    · cases hs
  | work e =>
    simp only [Attachment.step] at hs
    split at hs
    · rename_i hd c k hworker
      cases hs
      exact ⟨left, calls, h.command hworker⟩
    · rename_i op k hcommand hworker
      cases hs
      refine ⟨left, calls, h.perform ho e hworker ?_⟩
      rintro hd c rfl
      exact hcommand hd c k rfl HEq.rfl
    · cases hs
  | start =>
    simp only [Attachment.step] at hs
    split at hs
    · rename_i c cancelled k hworker
      cases hs
      rw [hworker] at hadds
      split
      · obtain ⟨left', hin⟩ := h.complete hadds none
        exact ⟨left', calls, hin⟩
      · exact ⟨left, calls, hadds, h.caller, h.added⟩
    · cases hs
  | finish =>
    simp only [Attachment.step] at hs
    split at hs
    · rename_i c cancelled k hworker
      cases hs
      rw [hworker] at hadds
      obtain ⟨left', hin⟩ := h.complete hadds (if s.Fails cancelled then none else s.core.playing)
      exact ⟨left', calls, hin⟩
    · cases hs
  | core l =>
    cases l with
    | loadfile | stop | other => cases hs
    | startFile | finish =>
      obtain ⟨core, -, rfl⟩ := Option.map_eq_some_iff.mp hs
      exact ⟨left, calls, h.worker, h.caller, h.added⟩
    | endFile next =>
      obtain ⟨core, -, rfl⟩ := Option.map_eq_some_iff.mp hs
      refine ⟨left, calls, ?_, h.caller, h.added⟩
      change s.worker.cancel.Adds left
      generalize s.worker = w at hadds
      cases w <;> exact hadds

theorem inTurn_of_under {G : attachments.Guard} (h : attachments.Under G s) :
    ∃ left calls, InTurn s left calls := by
  refine h.invariant_of (I := fun s => ∃ left calls, InTurn s left calls) (J := Ordered)
    (fun _ hs => ordered_of_under hs) ?_ fun s s' l ho hi _ hs => ?_
  · rintro _ ⟨hd, o, url, core, aborted, pending, -, rfl⟩
    refine ⟨[], [], rfl, rfl, ?_⟩
    simp [State.before, adds, isAdd]
  · obtain ⟨left, calls, hi⟩ := hi
    exact hi.step ho hs

/-- The last call has returned, no block is pending that adds a track, and the queue is at the end of
    a block. -/
structure State.Drained (s : State) : Prop where
  caller : s.caller = .ret ()
  queue : adds s.queue = []
  worker : ∃ again, s.worker = .run (.ret again)

/-- The results are those of the first calls, in the order of the calls, and those of all calls once
    nothing is left to do. -/
theorem results_of_under {G : attachments.Guard} (h : attachments.Under G s) :
    s.results.map Result.command <+: s.added ∧
      (s.Drained → s.results.map Result.command = s.added) := by
  obtain ⟨left, calls, hin⟩ := inTurn_of_under h
  rw [hin.added]
  refine ⟨?_, fun hdrained => ?_⟩
  · rw [List.append_assoc, List.append_assoc]
    exact List.prefix_append _ _
  · obtain ⟨again, hworker⟩ := hdrained.worker
    obtain rfl : left = [] := by
      have hadds := hin.worker
      rwa [hworker] at hadds
    rw [hin.calls_eq_nil hdrained.caller, hdrained.queue]
    simp

/-! ## Runs in which mpv is ready -/

/-- What was added so far was added to the opened item, and what is being opened will be. -/
structure Attached (s : State) : Prop where
  results : ∀ r ∈ s.results, r.item = some 1
  opening : ∀ command cancelled k, s.worker = .opening command cancelled k → ¬ s.Fails cancelled

/-- A step that has nothing to do with adding tracks. -/
theorem Attached.keep {s s' : State} (h : Attached s) (hresults : s'.results = s.results)
    (hworker : s'.worker = s.worker ∧ s'.core = s.core ∨
      ∀ command cancelled k, s'.worker ≠ .opening command cancelled k) : Attached s' where
  results := hresults ▸ h.results
  opening command cancelled k hopening := by
    rcases hworker with ⟨hworker, hcore⟩ | hworker
    · have hgoes := h.opening command cancelled k (hworker ▸ hopening)
      rwa [State.Fails, hcore]
    · exact absurd hopening (hworker command cancelled k)

theorem Attached.work {s s' : State} {e : Event} (h : Attached s)
    (hs : step s (.work e) = some s') : Attached s' := by
  simp only [step] at hs
  split at hs
  · cases hs
    simp only [State.command]
    split
    · exact h.keep rfl (.inr (by rintro _ _ _ ⟨⟩))
    split <;> exact h.keep rfl (.inr (by rintro _ _ _ ⟨⟩))
  · rename_i op k _ _
    cases hs
    have hresults : (s.perform e op).2.results = s.results := by cases op <;> rfl
    exact h.keep hresults (.inr (by rintro _ _ _ ⟨⟩))
  · cases hs

theorem Attached.start {s s' : State} (h : Attached s) (hg : Ready s .start)
    (hs : step s .start = some s') : Attached s' := by
  simp only [step] at hs
  split at hs
  · rename_i command cancelled k hworker
    have hgoes := hg command cancelled k hworker
    rw [if_neg hgoes] at hs
    cases hs
    refine ⟨h.results, fun _ _ _ hopening => ?_⟩
    cases hopening
    exact hgoes
  · cases hs

theorem Attached.finish {s s' : State} (ho : Ordered s) (h : Attached s)
    (hs : step s .finish = some s') : Attached s' := by
  simp only [step] at hs
  split at hs
  · rename_i command cancelled k hworker
    have hgoes := h.opening command cancelled k hworker
    have hplaying : s.core.playing = some 1 :=
      (ho.loaded (by simp [hworker])).2.2.playing (not_not.mp (not_or.mp hgoes).1)
    rw [if_neg hgoes, hplaying] at hs
    cases hs
    refine ⟨fun r hr => ?_, by rintro _ _ _ ⟨⟩⟩
    rcases List.mem_append.mp hr with hr | hr
    · exact h.results r hr
    · rw [List.mem_singleton.mp hr]
  · cases hs

theorem Attached.runCore {s s' : State} {l : PlaybackLabel Nat} (h : Attached s)
    (hg : Ready s (.core l)) (hs : step s (.core l) = some s') : Attached s' := by
  cases l with
  | loadfile | stop | other => cases hs
  | startFile =>
    obtain ⟨core, hcore, rfl⟩ := Option.map_eq_some_iff.mp hs
    obtain ⟨-, -, -, rfl⟩ := Playback.startFile_cases hcore
    refine ⟨h.results, fun command cancelled k hopening => ?_⟩
    have hgoes := h.opening command cancelled k hopening
    exact not_or.mpr ⟨not_not.mpr rfl, (not_or.mp hgoes).2⟩
  | finish reason =>
    obtain ⟨core, hcore, rfl⟩ := Option.map_eq_some_iff.mp hs
    exact h.keep rfl (.inr hg)
  | endFile next =>
    obtain ⟨core, hcore, rfl⟩ := Option.map_eq_some_iff.mp hs
    have hends := (Playback.endFile_cases hcore).2.1
    refine h.keep rfl (.inr fun command cancelled k hopening => ?_)
    -- while a file is opened, mpv has no reason to end what it plays
    generalize hw : s.worker = w at hopening
    cases w with
    | run | issued => cases hopening
    | opening command cancelled k => exact h.opening command cancelled k hw (.inl hends)

theorem Attached.step {s s' : State} {l : Label} (ho : Ordered s) (h : Attached s)
    (hg : Ready s l) (hs : step s l = some s') : Attached s' := by
  have hbegin {t : State} {p : Core Unit} (ht : Attached t) (hs : t.begin p = some s') :
      Attached s' := by
    simp only [State.begin] at hs
    split at hs
    · cases hs
      exact ht.keep rfl (.inl ⟨rfl, rfl⟩)
    · cases hs
  cases l with
  | «open» =>
    obtain ⟨-, hs⟩ := Option.ite_none_left_eq_some.mp hs
    exact hbegin (t := { s with opened := true }) (h.keep rfl (.inl ⟨rfl, rfl⟩)) hs
  | addSubtitle | addAudio =>
    obtain ⟨-, hs⟩ := Option.ite_none_right_eq_some.mp hs
    have hadded (cs : List (List CString)) : Attached { s with added := cs } :=
      h.keep rfl (.inl ⟨rfl, rfl⟩)
    exact hbegin (hadded _) hs
  | caller =>
    simp only [Attachment.step] at hs
    split at hs
    · cases hs
    · rename_i op k _
      cases hs
      have hframe : (s.perform ⟨.none, .none⟩ op).2.results = s.results ∧
          (s.perform ⟨.none, .none⟩ op).2.worker = s.worker ∧
          (s.perform ⟨.none, .none⟩ op).2.core = s.core := by
        cases op <;> exact ⟨rfl, rfl, rfl⟩
      exact h.keep hframe.1 (.inl hframe.2)
  | wakeup =>
    cases hs
    exact h.keep rfl (.inl ⟨rfl, rfl⟩)
  | take =>
    simp only [Attachment.step] at hs
    split at hs
    · cases hs
      exact h.keep rfl (.inr (by rintro _ _ _ ⟨⟩))
    · cases hs
  | again =>
    simp only [Attachment.step] at hs
    split at hs
    · cases hs
      exact h.keep rfl (.inr (by rintro _ _ _ ⟨⟩))
    · cases hs
  | work e => exact h.work hs
  | start => exact h.start hg hs
  | finish => exact h.finish ho hs
  | core l => exact h.runCore hg hs

/-- While mpv is ready for them, every track that is added after `open` is added to the
    track list of the opened item: the calls lead to the results in their order, one each,
    and each result is that the file of the call was added to that item. -/
theorem attached_of_ready {s : State} (h : attachments.Under Ready s) :
    (∀ r ∈ s.results, r.item = some 1) ∧ s.results.map Result.command <+: s.added ∧
      (s.Drained → s.results.map Result.command = s.added) := by
  have hattached : Attached s := by
    apply h.invariant_of (J := Ordered) fun s hs => ordered_of_under hs
    · rintro s ⟨hd, o, url, core, aborted, pending, -, rfl⟩
      exact ⟨nofun, nofun⟩
    · exact fun s s' l ho hi hg hs => hi.step ho hg hs
  exact ⟨hattached.results, results_of_under h⟩

/-- A test that is enough for `Ready`. -/
def readies (s : State) : Label → Bool
  | .start =>
    match s.worker with
    | .issued _ cancelled _ => ¬ s.Fails cancelled
    | _ => true
  | .core (.finish _) =>
    match s.worker with
    | .opening _ _ _ => false
    | _ => true
  | _ => true

theorem ready_of_readies (s : State) (l : Label) (h : readies s l = true) : Ready s l := by
  cases l with
  | start =>
    intro command cancelled k hworker
    simpa [readies, hworker] using h
  | core l =>
    cases l with
    | finish reason =>
      intro command cancelled k hworker
      simp [readies, hworker] at h
    | loadfile | stop | other | startFile | endFile => trivial
  | «open» | addSubtitle | addAudio | caller | wakeup | take | again | work | finish => trivial

/-- A test for `Drained`. -/
def State.rests (s : State) : Bool :=
  s.caller.done && adds s.queue = [] && match s.worker with
    | .run p => p.done
    | _ => false

theorem drained_of_rests (h : s.rests = true) : s.Drained := by
  unfold State.rests at h
  simp only [Bool.and_eq_true, decide_eq_true_eq] at h
  obtain ⟨⟨hcaller, hqueue⟩, hworker⟩ := h
  refine ⟨?_, hqueue, ?_⟩
  · cases hc : s.caller with
    | ret u => rfl
    | act op k => simp [hc] at hcaller
  · split at hworker
    · rename_i p hp
      cases p with
      | ret again => exact ⟨again, hp⟩
      | act op k => simp at hworker
    · cases hworker

/-- The URL is set, and mpv is idle. -/
def idle : State := .before 1 {} "a" {} false 0

theorem init_idle : attachments.init idle := by
  refine ⟨1, {}, "a", {}, false, 0, ?_, rfl⟩
  rintro i (h | h) <;> cases h

/-- The caller calls `open` and runs it to its end. -/
def callOpen : List Label := .open :: .replicate 4 .caller

/-- The caller adds a subtitle. -/
def callAddSubtitle : List Label := [.addSubtitle "s", .caller, .caller]

/-- The queue gives the command of `open`. -/
def runLoadfile : List Label := .take :: .replicate 3 (.work ⟨.none, .none⟩)

/-- The queue gives a command that adds a track, and mpv gets to it. -/
def runTrackAdd : List Label := [.take, .work ⟨.none, .none⟩, .work ⟨.none, .none⟩, .start]

/-- The subtitle is added when mpv has started to play the item. -/
theorem attached_after_startFile :
    ∃ s, attachments.Under Ready s ∧ s.results.length = 1 ∧
      s.results.map Result.command = s.added ∧ ∀ r ∈ s.results, r.item = some 1 := by
  obtain ⟨s, hs, hend⟩ := Machine.Under.execIf_any ready_of_readies
    (.init init_idle : attachments.Under Ready idle)
    (callOpen ++ runLoadfile ++ [.core .startFile] ++ callAddSubtitle ++ runTrackAdd ++ [.finish])
    (p := fun s => s.results.length = 1 && s.rests) (by decide +kernel)
  obtain ⟨hresults, hrests⟩ := Bool.and_eq_true_iff.mp hend
  obtain ⟨hitem, -, hall⟩ := attached_of_ready hs
  exact ⟨s, hs, of_decide_eq_true hresults, hall (drained_of_rests hrests), hitem⟩

/-- The subtitle is dropped, as mpv gets to it before it starts to play the item. -/
theorem not_attached_before_startFile :
    ¬ ∀ s, attachments.Reachable s → ∀ r ∈ s.results, r.item = some 1 := by
  intro h
  obtain ⟨s, hs, hdropped⟩ := Machine.Reachable.exec_any
    (.init init_idle : attachments.Reachable idle)
    (callOpen ++ callAddSubtitle ++ runLoadfile ++ runTrackAdd ++ [.core .startFile])
    (p := fun s => s.results.any fun r => r.item.isNone) (by decide +kernel)
  obtain ⟨r, hr, hnone⟩ := List.any_eq_true.mp hdropped
  rw [h s hs r hr] at hnone
  cases hnone

end Attachment
