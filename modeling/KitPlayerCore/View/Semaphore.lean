-- SUMMARY: What `drawSem` guarantees: who draws at the same time, and what has finished when `updateCBDraw` returns.
import KitPlayerCore.View.Teardown

/-!
# The draw semaphore

Every `drawRect:` signals `drawSem`, and only `updateCBDraw` waits on it. The signal of
a display block is given inside of `display`, which presents the drawing afterwards.
-/

namespace View

open Mpv Transition

/-! ## The rendezvous with the end of its blocks -/

/-- A call of `updateCBDraw` that has returned. -/
structure Returned where
  /-- The number of the block that the call enqueued. -/
  block : Nat
  /-- How many blocks had signalled by then. -/
  signalled : Nat
  /-- How many of them had finished. -/
  finished : Nat
  deriving DecidableEq, Repr

/-- The rendezvous, and what is to be said of its semaphore. -/
structure SemState where
  view : State := .afterInitView
  /-- `drawQueue` is in `display`, behind `drawRect:`. -/
  presenting : Bool := false
  /-- How many display blocks have finished. They finish in the order of their numbers. -/
  finished : Nat := 0
  /-- How often `drawSem` was signalled for UIKit. -/
  uikitSignals : Nat := 0
  returned : List Returned := []

inductive SemLabel where
  | view (l : Label)
  /-- `display` returns, and with it the block. -/
  | displayed
  deriving DecidableEq, Repr

/-- How many display blocks have signalled. -/
def SemState.signalled (s : SemState) : Nat := s.finished + s.presenting.toNat

/-- What is noted of a step of the rendezvous. -/
def SemState.note (s : SemState) (l : Label) (view : State) : SemState :=
  match l with
  | .draw .queue =>
    { s with view := view, presenting := s.view.pc .queue = .signal || s.presenting }
  | .draw .main =>
    { s with
      view := view
      uikitSignals := if s.view.pc .main = .signal then s.uikitSignals + 1 else s.uikitSignals }
  | .update =>
    match s.view.vo with
    | .wait k => { s with view := view, returned := s.returned ++ [⟨k, s.signalled, s.finished⟩] }
    | _ => { s with view := view }
  | _ => { s with view := view }

def semStep (s : SemState) : SemLabel → Option SemState
  | .view l =>
    if l = .runBlock ∧ s.presenting then none else (step s.view l).map (s.note l)
  | .displayed =>
    if s.presenting then some { s with presenting := false, finished := s.finished + 1 } else none

def semaphore : Machine SemState SemLabel where
  init s := s = {}
  step := semStep

/-- At most one `mpv_opengl_cb_draw` is in progress, and every call of `updateCBDraw`
    returned after its own block. -/
structure Exact (s : SemState) : Prop where
  alone : ¬ (Drawing s.view .queue ∧ Drawing s.view .main)
  after : ∀ r ∈ s.returned, r.block < r.finished

/-- The same, but of the end of a block only that it has signalled, with which its draw is over. -/
structure Rendezvous (s : SemState) : Prop where
  alone : ¬ (Drawing s.view .queue ∧ Drawing s.view .main)
  after : ∀ r ∈ s.returned, r.block < r.signalled

/-- `isStopDraw` is set, no callback has yet to enqueue its block, and every block that was
    enqueued has signalled. -/
structure Spent (s : State) : Prop where
  isStopDraw : s.isStopDraw = true
  vo : s.vo ≠ .enqueue
  started : s.started = s.calls
  queue : s.pc .queue = .idle

/-- UIKit calls `drawRect:` only once nothing more is to be drawn. -/
def DrawsLast (s : SemState) : SemLabel → Prop
  | .view .uikitDraw => Spent s.view
  | _ => True

/-- Besides, the VO thread does not go on while `drawQueue` is in `display` behind its signal. -/
def Apart (s : SemState) : SemLabel → Prop
  | .view .uikitDraw => Spent s.view
  | .view .update => s.presenting = false
  | _ => True

theorem Apart.drawsLast {s : SemState} {l : SemLabel} (h : Apart s l) : DrawsLast s l := by
  cases l with
  | displayed => trivial
  | view l =>
    cases l with
    | uikitDraw => exact h
    | drawFrame | update | flipPage | runBlock | draw | callShutDown | shutDown => trivial

/-! ## Counting signals -/

/-- `updateCBDraw` waits. -/
def State.waiting (s : State) : Bool :=
  match s.vo with
  | .wait _ => true
  | _ => false

/-- A display block is in `drawRect:`. -/
def State.inDrawRect (s : State) : Bool := s.pc .queue != .idle

namespace State

@[simp] theorem goto_started (s : State) (t : Drawer) (pc : DrawPc) :
    (s.goto t pc).started = s.started := rfl

@[simp] theorem goto_calls (s : State) (t : Drawer) (pc : DrawPc) :
    (s.goto t pc).calls = s.calls := rfl

@[simp] theorem goto_waiting (s : State) (t : Drawer) (pc : DrawPc) :
    (s.goto t pc).waiting = s.waiting := rfl

@[simp] theorem goto_inDrawRect (s : State) (pc : DrawPc) :
    (s.goto .queue pc).inDrawRect = (pc != .idle) := by
  simp [inDrawRect]

end State

/-- A draw leaves the calls of `updateCBDraw` and the other drawing thread alone. -/
theorem draw_keeps {s v : State} {t : Drawer} (hs : step s (.draw t) = some v) :
    v.calls = s.calls ∧ v.waiting = s.waiting ∧ ∀ u ≠ t, v.pc u = s.pc u := by
  rcases draw_cases hs with ⟨-, -, rfl⟩ | ⟨-, -, rfl⟩ | ⟨-, rfl⟩ | ⟨-, -, rfl⟩ | ⟨-, -, rfl⟩ |
    ⟨n, -, -, rfl⟩ | ⟨-, rfl⟩ <;>
    exact ⟨rfl, rfl, fun u hu => by simp [State.goto_pc, hu]⟩

/-- Every signal was given by a block or for UIKit, and every call of `updateCBDraw`
    takes one. -/
structure Counted (s : SemState) : Prop where
  started : s.view.started ≤ s.view.calls
  wait : ∀ k, s.view.vo = .wait k → k + 1 = s.view.calls
  finished : s.finished + s.presenting.toNat + s.view.inDrawRect.toNat = s.view.started
  presenting : s.presenting = true → s.view.pc .queue = .idle
  signals : s.view.drawSem + s.view.calls + s.view.inDrawRect.toNat =
    s.view.started + s.view.waiting.toNat + s.uikitSignals

theorem Counted.signalled_of_spent {s : SemState} (h : Counted s) (hspent : Spent s.view) :
    s.signalled = s.view.calls := by
  have hdraw : s.view.inDrawRect = false := by simp [State.inDrawRect, hspent.queue]
  have hfinished := h.finished
  rw [hdraw, Bool.toNat_false] at hfinished
  exact hfinished.trans hspent.started

/-- While no signal was given for UIKit, a signal that is there is that of the last block. -/
theorem Counted.signalled_of_signal {s : SemState} (h : Counted s)
    (hwaiting : s.view.waiting = true) (hsem : 0 < s.view.drawSem) (hsignals : s.uikitSignals = 0) :
    s.signalled = s.view.calls := by
  have hcount := h.signals
  have hfinished := h.finished
  have hstarted := h.started
  rw [hwaiting, hsignals, Bool.toNat_true] at hcount
  unfold SemState.signalled
  omega

/-- The step moves neither `drawQueue` nor the semaphore. -/
theorem Counted.of_vo {s : SemState} (h : Counted s) {v : State}
    (hpc : v.pc .queue = s.view.pc .queue) (hstarted : v.started = s.view.started)
    (hcalls : v.calls = s.view.calls) (hsem : v.drawSem = s.view.drawSem)
    (hvo : v.vo = s.view.vo ∨ (s.view.waiting = false ∧ v.waiting = false)) :
    Counted { s with view := v } := by
  have hdraw : v.inDrawRect = s.view.inDrawRect := by simp [State.inDrawRect, hpc]
  have hwaiting : v.waiting = s.view.waiting := by
    rcases hvo with hvo | ⟨hold, hnew⟩
    · simp [State.waiting, hvo]
    · rw [hold, hnew]
  refine ⟨?_, ?_, ?_, ?_, ?_⟩
  · simpa [hstarted, hcalls] using h.started
  · intro k hk
    rcases hvo with hvo | ⟨-, hnew⟩
    · simpa [hcalls] using h.wait k (hvo ▸ hk)
    · simp [State.waiting, show v.vo = .wait k from hk] at hnew
  · simpa [hdraw, hstarted] using h.finished
  · simpa [hpc] using h.presenting
  · simpa [hdraw, hwaiting, hstarted, hcalls, hsem] using h.signals

theorem semStep_view {s s' : SemState} {l : Label} (h : semStep s (.view l) = some s') :
    (l = .runBlock → s.presenting = false) ∧ ∃ v, step s.view l = some v ∧ s' = s.note l v := by
  simp only [semStep] at h
  split at h
  · cases h
  · rename_i hrun
    obtain ⟨v, hv, rfl⟩ := Option.map_eq_some_iff.mp h
    refine ⟨fun hl => ?_, v, hv, rfl⟩
    simpa [hl] using hrun

theorem Counted.update {s : SemState} {v : State} (h : Counted s)
    (hs : step s.view .update = some v) : Counted (s.note .update v) := by
  have hsignals := h.signals
  have hstarted := h.started
  rcases update_cases hs with ⟨hvo, -, -, rfl⟩ | ⟨hvo, -, -, rfl⟩ | ⟨hvo, -, rfl⟩ | ⟨hvo, -, rfl⟩ |
    ⟨hvo, rfl⟩ | ⟨k, hvo, hsem, rfl⟩ | ⟨hvo, rfl⟩
  case inr.inr.inr.inr.inl =>
    simp only [SemState.note, hvo]
    refine ⟨Nat.le_succ_of_le hstarted, ?_, h.finished, h.presenting, ?_⟩
    · intro k hk
      cases hk
      rfl
    · simp only [State.waiting, State.inDrawRect, hvo, Bool.toNat_true, Bool.toNat_false]
        at hsignals ⊢
      omega
  case inr.inr.inr.inr.inr.inl =>
    simp only [SemState.note, hvo]
    refine ⟨hstarted, nofun, h.finished, h.presenting, ?_⟩
    simp only [State.waiting, State.inDrawRect, hvo, Bool.toNat_true, Bool.toNat_false]
      at hsignals ⊢
    omega
  all_goals
    simp only [SemState.note, hvo]
    exact h.of_vo rfl rfl rfl rfl (.inr (by simp [State.waiting, hvo]))

/-- `drawQueue` goes on in `drawRect:`. -/
theorem Counted.goto_queue {s : SemState} (h : Counted s) (hin : s.view.pc .queue ≠ .idle)
    {pc : DrawPc} (hpc : pc ≠ .idle) {v : State} (hstarted : v.started = s.view.started)
    (hcalls : v.calls = s.view.calls) (hsem : v.drawSem = s.view.drawSem) (hvo : v.vo = s.view.vo) :
    Counted { s with view := v.goto .queue pc } := by
  have hold : s.view.inDrawRect = true := by simp [State.inDrawRect, hin]
  have hnew : (pc != DrawPc.idle) = true := bne_iff_ne.mpr hpc
  have hwaiting : v.waiting = s.view.waiting := by simp [State.waiting, hvo]
  refine ⟨?_, ?_, ?_, fun hpres => absurd (h.presenting hpres) hin, ?_⟩
  · simpa [hstarted, hcalls] using h.started
  · intro k hk
    simpa [hcalls] using h.wait k (hvo ▸ hk)
  · simpa [hold, hnew, hstarted] using h.finished
  · simpa [hold, hnew, hwaiting, hstarted, hcalls, hsem] using h.signals

theorem Counted.draw_queue {s : SemState} {v : State} (h : Counted s)
    (hs : step s.view (.draw .queue) = some v) : Counted (s.note (.draw .queue) v) := by
  have hnote (hpc : s.view.pc .queue ≠ .signal) :
      s.note (.draw .queue) v = { s with view := v } := by
    simp [SemState.note, hpc]
  rcases draw_cases hs with ⟨hpc, -, rfl⟩ | ⟨hpc, -, rfl⟩ | ⟨hpc, rfl⟩ | ⟨hpc, -, rfl⟩ |
    ⟨hpc, -, rfl⟩ | ⟨n, hpc, -, rfl⟩ | ⟨hpc, rfl⟩
  case inr.inr.inr.inr.inr.inr =>
    have hin : s.view.pc .queue ≠ .idle := by simp [hpc]
    have hold : s.view.inDrawRect = true := by simp [State.inDrawRect, hin]
    have hpres : s.presenting = false := by
      by_contra hp
      exact hin (h.presenting (Bool.not_eq_false _ ▸ hp))
    have hfinished := h.finished
    have hsignals := h.signals
    simp only [hold, hpres, Bool.toNat_true, Bool.toNat_false] at hfinished hsignals
    refine ⟨h.started, h.wait, ?_, fun _ => by simp [SemState.note], ?_⟩
    · simp [SemState.note, hpc]
      omega
    · simp [SemState.note]
      have hwaiting : ({ s.view with drawSem := s.view.drawSem + 1 } : State).waiting =
        s.view.waiting := rfl
      rw [hwaiting]
      omega
  all_goals
    rw [hnote (by simp [hpc])]
    exact h.goto_queue (by simp [hpc]) (by simp) rfl rfl rfl rfl

theorem Counted.draw_main {s : SemState} {v : State} (h : Counted s)
    (hs : step s.view (.draw .main) = some v) : Counted (s.note (.draw .main) v) := by
  have hnote (hpc : s.view.pc .main ≠ .signal) :
      s.note (.draw .main) v = { s with view := v } := by
    simp [SemState.note, hpc]
  rcases draw_cases hs with ⟨hpc, -, rfl⟩ | ⟨hpc, -, rfl⟩ | ⟨hpc, rfl⟩ | ⟨hpc, -, rfl⟩ |
    ⟨hpc, -, rfl⟩ | ⟨n, hpc, -, rfl⟩ | ⟨hpc, rfl⟩
  case inr.inr.inr.inr.inr.inr =>
    have hdraw : (State.goto { s.view with drawSem := s.view.drawSem + 1 } .main
        .idle).inDrawRect = s.view.inDrawRect := by
      simp [State.inDrawRect, State.goto_pc]
    have hwaiting : ({ s.view with drawSem := s.view.drawSem + 1 } : State).waiting =
        s.view.waiting := rfl
    refine ⟨h.started, h.wait, ?_, ?_, ?_⟩
    · simpa [SemState.note, hdraw] using h.finished
    · simpa [SemState.note, State.goto_pc] using h.presenting
    · have hsignals := h.signals
      simp [SemState.note, hpc, hdraw, hwaiting]
      omega
  all_goals
    rw [hnote (by simp [hpc])]
    exact h.of_vo (by simp [State.goto_pc]) rfl rfl rfl (.inl rfl)

theorem Counted.runBlock {s : SemState} {v : State} (h : Counted s) (hpres : s.presenting = false)
    (hs : step s.view .runBlock = some v) : Counted (s.note .runBlock v) := by
  obtain ⟨hidle, hlt, rfl⟩ := runBlock_cases hs
  have hfinished := h.finished
  have hsignals := h.signals
  have hold : s.view.inDrawRect = false := by simp [State.inDrawRect, hidle]
  have hwaiting : ({ s.view with started := s.view.started + 1 } : State).waiting =
      s.view.waiting := rfl
  have htest : (DrawPc.test != DrawPc.idle) = true := rfl
  simp only [hold, hpres, Bool.toNat_false] at hfinished hsignals
  refine ⟨hlt, h.wait, ?_, fun hp => ?_, ?_⟩
  · simp [SemState.note, hpres, htest]
    omega
  · simp [SemState.note, hpres] at hp
  · simp [SemState.note, hwaiting, htest]
    omega

theorem Counted.displayed {s s' : SemState} (h : Counted s)
    (hs : semStep s .displayed = some s') : Counted s' := by
  simp only [semStep, Option.ite_none_right_eq_some, Option.some.injEq] at hs
  obtain ⟨hpres, rfl⟩ := hs
  have hfinished := h.finished
  refine ⟨h.started, h.wait, ?_, nofun, h.signals⟩
  simp only [hpres, Bool.toNat_true, Bool.toNat_false] at hfinished ⊢
  omega

theorem Counted.step {s s' : SemState} {l : SemLabel} (h : Counted s)
    (hs : semStep s l = some s') : Counted s' := by
  cases l with
  | displayed => exact h.displayed hs
  | view l =>
    obtain ⟨hrun, v, hv, rfl⟩ := semStep_view hs
    cases l with
    | update => exact h.update hv
    | runBlock => exact h.runBlock (hrun rfl) hv
    | draw t =>
      cases t with
      | queue => exact h.draw_queue hv
      | main => exact h.draw_main hv
    | drawFrame f =>
      obtain ⟨hvo, rfl⟩ := drawFrame_cases hv
      exact h.of_vo rfl rfl rfl rfl (.inr (by simp [State.waiting, hvo]))
    | flipPage timeout =>
      obtain ⟨hvo, ctx, -, rfl⟩ := flipPage_cases hv
      exact h.of_vo rfl rfl rfl rfl (.inr (by simp [State.waiting, hvo]))
    | uikitDraw =>
      obtain ⟨-, -, rfl⟩ := uikitDraw_cases hv
      exact h.of_vo (by simp [State.goto_pc]) rfl rfl rfl (.inl rfl)
    | callShutDown onMain =>
      obtain ⟨-, rfl⟩ := callShutDown_cases hv
      exact h.of_vo rfl rfl rfl rfl (.inl rfl)
    | shutDown =>
      rcases shutDown_cases hv with ⟨-, rfl⟩ | ⟨-, -, rfl⟩ | ⟨-, rfl⟩ | ⟨-, -, rfl⟩ <;>
        exact h.of_vo rfl rfl rfl rfl (.inl rfl)

/-! ## UIKit draws last -/

theorem Spent.step {s s' : State} {l : Label} (h : Spent s) (hs : step s l = some s') :
    Spent s' := by
  cases l with
  | drawFrame f =>
    obtain ⟨-, rfl⟩ := drawFrame_cases hs
    exact ⟨h.isStopDraw, nofun, h.started, h.queue⟩
  | update =>
    obtain ⟨-, -, -, rfl⟩ | ⟨-, -, -, rfl⟩ | ⟨-, -, rfl⟩ | ⟨-, hstop, -⟩ | ⟨hvo, -⟩ |
      ⟨k, -, -, rfl⟩ | ⟨-, rfl⟩ := update_cases hs
    case inr.inr.inr.inl => simp [h.isStopDraw] at hstop
    case inr.inr.inr.inr.inl => exact absurd hvo h.vo
    all_goals exact ⟨h.isStopDraw, nofun, h.started, h.queue⟩
  | flipPage timeout =>
    obtain ⟨-, ctx, -, rfl⟩ := flipPage_cases hs
    exact ⟨h.isStopDraw, nofun, h.started, h.queue⟩
  | runBlock =>
    obtain ⟨-, hlt, -⟩ := runBlock_cases hs
    exact absurd h.started (Nat.ne_of_lt hlt)
  | uikitDraw =>
    obtain ⟨-, -, rfl⟩ := uikitDraw_cases hs
    exact ⟨h.isStopDraw, h.vo, h.started, by simpa [State.goto_pc] using h.queue⟩
  | draw t =>
    cases t with
    | queue =>
      have hidle := h.queue
      obtain ⟨hpc, -⟩ | ⟨hpc, -⟩ | ⟨hpc, -⟩ | ⟨hpc, -⟩ | ⟨hpc, -⟩ | ⟨n, hpc, -⟩ | ⟨hpc, -⟩ :=
        draw_cases hs <;>
        simp [hidle] at hpc
    | main =>
      obtain ⟨-, -, rfl⟩ | ⟨-, -, rfl⟩ | ⟨-, rfl⟩ | ⟨-, -, rfl⟩ | ⟨-, -, rfl⟩ | ⟨n, -, -, rfl⟩ |
        ⟨-, rfl⟩ := draw_cases hs <;>
        exact ⟨h.isStopDraw, h.vo, h.started, by simpa [State.goto_pc] using h.queue⟩
  | callShutDown onMain =>
    obtain ⟨-, rfl⟩ := callShutDown_cases hs
    exact ⟨h.isStopDraw, h.vo, h.started, h.queue⟩
  | shutDown =>
    obtain ⟨-, rfl⟩ | ⟨-, -, rfl⟩ | ⟨-, rfl⟩ | ⟨-, -, rfl⟩ := shutDown_cases hs
    · exact ⟨rfl, h.vo, h.started, h.queue⟩
    all_goals exact ⟨h.isStopDraw, h.vo, h.started, h.queue⟩

/-- UIKit does not draw before everything else is drawn, and each call of `updateCBDraw`
    has its block signal before it returns. -/
structure Paired (s : SemState) : Prop where
  main : s.view.pc .main ≠ .idle → Spent s.view ∧ (s.view.pc .main).pastTest = false
  signals : 0 < s.uikitSignals → Spent s.view
  /-- Only the block of the call that waits has yet to signal. -/
  signalling : s.view.calls ≤ s.signalled + s.view.waiting.toNat
  after : ∀ r ∈ s.returned, r.block < r.signalled

theorem Paired.rendezvous {s : SemState} (h : Paired s) : Rendezvous s := by
  refine ⟨?_, h.after⟩
  rintro ⟨-, hmain⟩
  have hpast := hmain.pastTest
  have hbusy : s.view.pc .main ≠ .idle := by
    intro hidle
    simp [hidle, DrawPc.pastTest] at hpast
  simp [(h.main hbusy).2] at hpast

/-- A signal that `updateCBDraw` takes comes when all blocks have signalled. -/
theorem Paired.signalled {s : SemState} (hc : Counted s) (h : Paired s)
    (hwaiting : s.view.waiting = true) (hsem : 0 < s.view.drawSem) :
    s.signalled = s.view.calls := by
  rcases Nat.eq_zero_or_pos s.uikitSignals with hsignals | hsignals
  · exact hc.signalled_of_signal hwaiting hsem hsignals
  · exact hc.signalled_of_spent (h.signals hsignals)

/-- While no call waits, all blocks have signalled. -/
theorem Paired.idle {s : SemState} (hc : Counted s) (h : Paired s)
    (hwaiting : s.view.waiting = false) :
    s.signalled = s.view.calls ∧ s.view.inDrawRect = false := by
  have hfinished := hc.finished
  have hstarted := hc.started
  have hsignalling := h.signalling
  unfold SemState.signalled at hsignalling ⊢
  rw [hwaiting, Bool.toNat_false] at hsignalling
  exact ⟨by omega, Bool.toNat_eq_zero.mp (by omega)⟩

/-- What is noted of the step concerns neither UIKit nor the calls that have returned. -/
theorem Paired.of_view {s : SemState} (h : Paired s) {v : State} {b : Bool}
    (hspent : Spent s.view → Spent v) (hmain : v.pc .main = s.view.pc .main)
    (hsignalling : v.calls ≤ s.finished + b.toNat + v.waiting.toNat) :
    Paired { s with view := v, presenting := b } where
  main hbusy := by
    obtain ⟨hs, hpast⟩ := h.main (hmain ▸ hbusy)
    exact ⟨hspent hs, hmain.symm ▸ hpast⟩
  signals hsignals := hspent (h.signals hsignals)
  signalling := hsignalling
  after := h.after

theorem Paired.update {s : SemState} {v : State} (hc : Counted s) (h : Paired s)
    (hs : step s.view .update = some v) : Paired (s.note .update v) := by
  have hspent (hp : Spent s.view) : Spent v := hp.step hs
  rcases update_cases hs with ⟨hvo, -, -, rfl⟩ | ⟨hvo, -, -, rfl⟩ | ⟨hvo, -, rfl⟩ | ⟨hvo, -, rfl⟩ |
    ⟨hvo, rfl⟩ | ⟨k, hvo, hsem, rfl⟩ | ⟨hvo, rfl⟩
  case inr.inr.inr.inr.inl =>
    have hsignalled := (h.idle hc (by simp [State.waiting, hvo])).1
    simp only [SemState.note, hvo]
    exact h.of_view hspent rfl (Nat.succ_le_succ (Nat.le_of_eq hsignalled.symm))
  case inr.inr.inr.inr.inr.inl =>
    have hsignalled := h.signalled hc (by simp [State.waiting, hvo]) hsem
    have hnumber := hc.wait k hvo
    have hview := h.of_view (b := s.presenting) hspent rfl (Nat.le_of_eq hsignalled.symm)
    simp only [SemState.note, hvo]
    refine ⟨hview.main, hview.signals, hview.signalling, ?_⟩
    intro r hr
    rcases List.mem_append.mp hr with hr | hr
    · exact h.after r hr
    · rw [List.mem_singleton.mp hr]
      show k < s.signalled
      omega
  all_goals
    simp only [SemState.note, hvo]
    exact h.of_view hspent rfl
      (by simpa [State.waiting, hvo, SemState.signalled] using h.signalling)

/-- UIKit's draw finds `isStopDraw` set, and only signals. -/
theorem Paired.draw_main {s : SemState} {v : State} (h : Paired s)
    (hs : step s.view (.draw .main) = some v) : Paired (s.note (.draw .main) v) := by
  have hbusy : s.view.pc .main ≠ .idle := by
    intro hidle
    simp [step, State.canCBDraw, hidle] at hs
  obtain ⟨hspent, hpast⟩ := h.main hbusy
  have hspent' := hspent.step hs
  rcases draw_cases hs with ⟨hpc, -, rfl⟩ | ⟨-, hstop, -⟩ | ⟨hpc, -⟩ | ⟨hpc, -⟩ | ⟨hpc, -⟩ |
    ⟨n, hpc, -⟩ | ⟨hpc, rfl⟩
  · exact ⟨fun _ => ⟨hspent', by simp [SemState.note, DrawPc.pastTest]⟩, fun _ => hspent',
      h.signalling, h.after⟩
  · simp [hspent.isStopDraw] at hstop
  case inr.inr.inr.inr.inr.inr =>
    exact ⟨fun hne => by simp [SemState.note] at hne, fun _ => hspent', h.signalling, h.after⟩
  all_goals simp [hpc, DrawPc.pastTest] at hpast

theorem Paired.draw_queue {s : SemState} {v : State} (h : Paired s)
    (hs : step s.view (.draw .queue) = some v) : Paired (s.note (.draw .queue) v) := by
  obtain ⟨hcalls, hwaiting, hothers⟩ := draw_keeps hs
  refine h.of_view (fun hp => hp.step hs) (hothers .main (by decide)) ?_
  have hsignalling := h.signalling
  have hle : s.presenting.toNat ≤ (s.view.pc .queue = .signal || s.presenting : Bool).toNat := by
    cases s.presenting <;> simp
  unfold SemState.signalled at hsignalling
  rw [hcalls, hwaiting]
  omega

theorem Paired.step {s s' : SemState} {l : SemLabel} (hc : Counted s) (h : Paired s)
    (hg : DrawsLast s l) (hs : semStep s l = some s') : Paired s' := by
  cases l with
  | displayed =>
    simp only [semStep, Option.ite_none_right_eq_some, Option.some.injEq] at hs
    obtain ⟨hpres, rfl⟩ := hs
    refine ⟨h.main, h.signals, ?_, h.after⟩
    simpa [SemState.signalled, hpres] using h.signalling
  | view l =>
    obtain ⟨hrun, v, hv, rfl⟩ := semStep_view hs
    have hspent (hp : Spent s.view) : Spent v := hp.step hv
    cases l with
    | update => exact h.update hc hv
    | draw t =>
      cases t with
      | main => exact h.draw_main hv
      | queue => exact h.draw_queue hv
    | runBlock =>
      obtain ⟨-, hlt, rfl⟩ := runBlock_cases hv
      exact h.of_view hspent (by simp [State.goto_pc]) h.signalling
    | uikitDraw =>
      obtain ⟨-, -, rfl⟩ := uikitDraw_cases hv
      exact ⟨fun _ => ⟨hspent hg, by simp [SemState.note, DrawPc.pastTest]⟩,
        fun _ => hspent hg, h.signalling, h.after⟩
    | drawFrame f =>
      obtain ⟨hvo, rfl⟩ := drawFrame_cases hv
      exact h.of_view hspent rfl
        (by simpa [State.waiting, hvo, SemState.signalled] using h.signalling)
    | flipPage timeout =>
      obtain ⟨hvo, ctx, -, rfl⟩ := flipPage_cases hv
      exact h.of_view hspent rfl
        (by simpa [State.waiting, hvo, SemState.signalled] using h.signalling)
    | callShutDown onMain =>
      obtain ⟨-, rfl⟩ := callShutDown_cases hv
      exact h.of_view hspent rfl h.signalling
    | shutDown =>
      rcases shutDown_cases hv with ⟨-, rfl⟩ | ⟨-, -, rfl⟩ | ⟨-, rfl⟩ | ⟨-, -, rfl⟩ <;>
        exact h.of_view hspent rfl h.signalling

/-- Only the block of the call that waits has yet to finish. So a block that had signalled before a
    call returned had finished, too. -/
structure Prompt (s : SemState) : Prop where
  finishing : s.view.calls ≤ s.finished + s.view.waiting.toNat
  returned : ∀ r ∈ s.returned, r.signalled = r.finished

theorem Prompt.exact {s : SemState} (h : Paired s) (hp : Prompt s) : Exact s :=
  ⟨h.rendezvous.alone, fun r hr => hp.returned r hr ▸ h.after r hr⟩

/-- While no call waits, all blocks have finished. -/
theorem Prompt.idle {s : SemState} (hc : Counted s) (hp : Prompt s)
    (hwaiting : s.view.waiting = false) :
    s.finished = s.view.calls ∧ s.presenting = false ∧ s.view.inDrawRect = false := by
  have hfinished := hc.finished
  have hstarted := hc.started
  have hfinishing := hp.finishing
  rw [hwaiting, Bool.toNat_false] at hfinishing
  refine ⟨by omega, ?_, ?_⟩
  · exact Bool.toNat_eq_zero.mp (by omega)
  · exact Bool.toNat_eq_zero.mp (by omega)

theorem Prompt.of_view {s : SemState} (h : Prompt s) {v : State} (b : Bool)
    (hcalls : v.calls = s.view.calls) (hwaiting : v.waiting = s.view.waiting) :
    Prompt { s with view := v, presenting := b } :=
  ⟨by simpa [hcalls, hwaiting] using h.finishing, h.returned⟩

theorem Prompt.update {s : SemState} {v : State} (hc : Counted s) (h : Paired s) (hp : Prompt s)
    (hpres : s.presenting = false) (hs : step s.view .update = some v) :
    Prompt (s.note .update v) := by
  rcases update_cases hs with ⟨hvo, -, -, rfl⟩ | ⟨hvo, -, -, rfl⟩ | ⟨hvo, -, rfl⟩ | ⟨hvo, -, rfl⟩ |
    ⟨hvo, rfl⟩ | ⟨k, hvo, hsem, rfl⟩ | ⟨hvo, rfl⟩
  case inr.inr.inr.inr.inl =>
    have hfinished := (hp.idle hc (by simp [State.waiting, hvo])).1
    simp only [SemState.note, hvo]
    exact ⟨Nat.succ_le_succ (Nat.le_of_eq hfinished.symm), hp.returned⟩
  case inr.inr.inr.inr.inr.inl =>
    have hsignalled := h.signalled hc (by simp [State.waiting, hvo]) hsem
    have hfinished : s.signalled = s.finished := by simp [SemState.signalled, hpres]
    simp only [SemState.note, hvo]
    refine ⟨Nat.le_of_eq (hsignalled.symm.trans hfinished), fun r hr => ?_⟩
    rcases List.mem_append.mp hr with hr | hr
    · exact hp.returned r hr
    · rw [List.mem_singleton.mp hr]
      exact hfinished
  all_goals
    simp only [SemState.note, hvo]
    exact hp.of_view s.presenting rfl (by simp [State.waiting, hvo])

theorem Prompt.step {s s' : SemState} {l : SemLabel} (hc : Counted s) (h : Paired s)
    (hp : Prompt s) (hg : Apart s l) (hs : semStep s l = some s') : Prompt s' := by
  cases l with
  | displayed =>
    simp only [semStep, Option.ite_none_right_eq_some, Option.some.injEq] at hs
    obtain ⟨-, rfl⟩ := hs
    exact ⟨Nat.le_trans hp.finishing (Nat.add_le_add_right (Nat.le_succ _) _), hp.returned⟩
  | view l =>
    obtain ⟨hrun, v, hv, rfl⟩ := semStep_view hs
    cases l with
    | update => exact hp.update hc h hg hv
    | draw t =>
      obtain ⟨hcalls, hwaiting, -⟩ := draw_keeps hv
      have hview := hp.of_view s.presenting hcalls hwaiting
      cases t <;> exact ⟨hview.finishing, hview.returned⟩
    | runBlock =>
      obtain ⟨-, -, rfl⟩ := runBlock_cases hv
      exact hp.of_view _ rfl rfl
    | uikitDraw =>
      obtain ⟨-, -, rfl⟩ := uikitDraw_cases hv
      exact hp.of_view _ rfl rfl
    | drawFrame f =>
      obtain ⟨hvo, rfl⟩ := drawFrame_cases hv
      exact hp.of_view _ rfl (by simp [State.waiting, hvo])
    | flipPage timeout =>
      obtain ⟨hvo, ctx, -, rfl⟩ := flipPage_cases hv
      exact hp.of_view _ rfl (by simp [State.waiting, hvo])
    | callShutDown onMain =>
      obtain ⟨-, rfl⟩ := callShutDown_cases hv
      exact hp.of_view _ rfl rfl
    | shutDown =>
      rcases shutDown_cases hv with ⟨-, rfl⟩ | ⟨-, -, rfl⟩ | ⟨-, rfl⟩ | ⟨-, -, rfl⟩ <;>
        exact hp.of_view _ rfl rfl

theorem counted_of_under {G : semaphore.Guard} {s : SemState} (h : semaphore.Under G s) :
    Counted s := by
  apply h.invariant
  · rintro s rfl
    exact ⟨Nat.le_refl _, nofun, rfl, nofun, rfl⟩
  · exact fun s s' l hi _ hs => hi.step hs

theorem paired_of_drawsLast {s : SemState} (h : semaphore.Under DrawsLast s) : Paired s := by
  apply h.invariant_of fun s => counted_of_under
  · rintro s rfl
    exact ⟨nofun, nofun, Nat.le_refl _, nofun⟩
  · exact fun s s' l hc hi hg hs => hi.step hc hg hs

theorem paired_of_apart {s : SemState} (h : semaphore.Under Apart s) : Paired s :=
  paired_of_drawsLast (h.mono fun _ _ hg => hg.drawsLast)

theorem prompt_of_apart {s : SemState} (h : semaphore.Under Apart s) : Prompt s := by
  apply h.invariant_of fun s hs => And.intro (counted_of_under hs) (paired_of_apart hs)
  · rintro s rfl
    exact ⟨Nat.le_refl _, nofun⟩
  · exact fun s s' l hj hi hg hs => hi.step hj.1 hj.2 hg hs

/-! ## What comes of a draw before -/

/-- A run that keeps to `Apart` comes to a state in which the semaphore is not exact. -/
def Breaks (s : SemState) : Prop := semaphore.May Apart (fun t => ¬ Exact t) s

/-- Before `isStopDraw` is set, the callback is there, and the VO is not waited for. -/
structure Unstopped (s : State) : Prop where
  updateCb : s.isStopDraw = false → s.ctx.updateCb = true
  shutDown : s.isStopDraw = false → s.shutDown = .idle ∨ s.shutDown = .stopDraw

theorem Unstopped.step {s s' : State} {l : Label} (h : Unstopped s) (hs : step s l = some s') :
    Unstopped s' := by
  cases l with
  | drawFrame f =>
    obtain ⟨-, rfl⟩ := drawFrame_cases hs
    exact ⟨h.updateCb, h.shutDown⟩
  | update =>
    obtain ⟨-, -, -, rfl⟩ | ⟨-, -, -, rfl⟩ | ⟨-, -, rfl⟩ | ⟨-, -, rfl⟩ | ⟨-, rfl⟩ | ⟨k, -, -, rfl⟩ |
      ⟨-, rfl⟩ := update_cases hs <;>
      exact ⟨h.updateCb, h.shutDown⟩
  | flipPage timeout =>
    obtain ⟨-, ctx, hctx, rfl⟩ := flipPage_cases hs
    exact ⟨fun hstop => (RenderContext.flipPage_spec hctx).2.2.trans (h.updateCb hstop),
      h.shutDown⟩
  | runBlock =>
    obtain ⟨-, -, rfl⟩ := runBlock_cases hs
    exact ⟨h.updateCb, h.shutDown⟩
  | uikitDraw =>
    obtain ⟨-, -, rfl⟩ := uikitDraw_cases hs
    exact ⟨h.updateCb, h.shutDown⟩
  | draw t =>
    obtain ⟨-, -, rfl⟩ | ⟨-, -, rfl⟩ | ⟨-, rfl⟩ | ⟨-, -, rfl⟩ | ⟨-, -, rfl⟩ | ⟨n, -, -, rfl⟩ |
      ⟨-, rfl⟩ := draw_cases hs <;>
      exact ⟨by simpa using h.updateCb, h.shutDown⟩
  | callShutDown onMain =>
    obtain ⟨-, rfl⟩ := callShutDown_cases hs
    exact ⟨h.updateCb, fun _ => .inr rfl⟩
  | shutDown =>
    obtain ⟨-, rfl⟩ | ⟨hp, -, rfl⟩ | ⟨hp, rfl⟩ | ⟨hp, -, rfl⟩ := shutDown_cases hs
    · exact ⟨nofun, nofun⟩
    all_goals
      refine ⟨fun hstop => ?_, fun hstop => ?_⟩ <;> simpa [hp] using h.shutDown hstop

theorem SemState.note_view (s : SemState) (l : Label) (v : State) : (s.note l v).view = v := by
  cases l with
  | draw t => cases t <;> rfl
  | update =>
    simp only [SemState.note]
    split <;> rfl
  | drawFrame | flipPage | runBlock | uikitDraw | callShutDown | shutDown => rfl

theorem SemState.note_presenting (s : SemState) {l : Label} (hl : l ≠ .draw .queue) (v : State) :
    (s.note l v).presenting = s.presenting := by
  cases l with
  | draw t =>
    cases t with
    | queue => exact absurd rfl hl
    | main => rfl
  | update =>
    simp only [SemState.note]
    split <;> rfl
  | drawFrame | flipPage | runBlock | uikitDraw | callShutDown | shutDown => rfl

theorem semStep_of_step {s : SemState} {l : Label} {v : State}
    (hrun : l = .runBlock → s.presenting = false) (hv : step s.view l = some v) :
    semStep s (.view l) = some (s.note l v) := by
  have hnot : ¬ (l = .runBlock ∧ s.presenting = true) := by
    rintro ⟨hl, hpres⟩
    simp [hrun hl] at hpres
  rw [semStep, if_neg hnot, hv, Option.map_some]

/-- UIKit's draw is in `mpv_opengl_cb_draw`, and `isStopDraw` is not set. -/
structure Overtaken (s : SemState) : Prop where
  counted : Counted s
  handover : Handover s.view
  unstopped : Unstopped s.view
  main : s.view.pc .main = .draw
  isStopDraw : s.view.isStopDraw = false

section overtaken

variable {s : SemState} {l : Label} {v : State}

/-- UIKit's draw stays where it is, and another thread goes on. -/
theorem Overtaken.next (h : Overtaken s) (hg : Apart s (.view l))
    (hrun : l = .runBlock → s.presenting = false) (hv : step s.view l = some v)
    (hmain : v.pc .main = s.view.pc .main) (hstop : v.isStopDraw = s.view.isStopDraw)
    (hb : Overtaken (s.note l v) → Breaks (s.note l v)) : Breaks s := by
  have hs := semStep_of_step hrun hv
  refine .step hg hs (hb ⟨h.counted.step hs, ?_, ?_, ?_, ?_⟩) <;> rw [SemState.note_view]
  · exact h.handover.step hv
  · exact h.unstopped.step hv
  · rw [hmain, h.main]
  · rw [hstop, h.isStopDraw]

theorem Overtaken.drawing (h : Overtaken s) (hd : Drawing s.view .queue) : Breaks s :=
  .now fun he => he.alone ⟨hd, .inl h.main⟩

/-- The display block enters `mpv_opengl_cb_draw` too. -/
theorem Overtaken.enter (h : Overtaken s) (hpc : s.view.pc .queue = .enter) : Breaks s := by
  refine h.next (l := .draw .queue) (v := s.view.goto .queue .draw) trivial nofun
    (by simp [step, State.canCBDraw, hpc]) (by simp [State.goto_pc]) rfl fun h' => ?_
  exact h'.drawing (.inl (by rw [SemState.note_view, State.goto_pc_self]))

theorem Overtaken.test (h : Overtaken s) (hpc : s.view.pc .queue = .test) : Breaks s := by
  refine h.next (l := .draw .queue) (v := s.view.goto .queue .enter) trivial nofun
    (by simp [step, State.canCBDraw, hpc, h.isStopDraw]) (by simp [State.goto_pc]) rfl fun h' => ?_
  exact h'.enter (by rw [SemState.note_view, State.goto_pc_self])

/-- `drawQueue` is free for the next block. -/
structure Free (s : SemState) : Prop extends Overtaken s where
  queue : s.view.pc .queue = .idle
  presenting : s.presenting = false

theorem Free.block (h : Free s) (hlt : s.view.started < s.view.calls) : Breaks s := by
  refine h.next (l := .runBlock)
    (v := State.goto { s.view with started := s.view.started + 1 } .queue .test)
    trivial (fun _ => h.presenting) (by simp [step, h.queue, hlt]) (by simp [State.goto_pc]) rfl
    fun h' => ?_
  exact h'.test (by rw [SemState.note_view, State.goto_pc_self])

/-- The VO thread goes on. -/
theorem Free.vo (h : Free s) (hl : l = .update ∨ (∃ f, l = .drawFrame f) ∨ ∃ b, l = .flipPage b)
    (hv : step s.view l = some v) (hpc : v.pc = s.view.pc)
    (hstop : v.isStopDraw = s.view.isStopDraw) (hb : Free (s.note l v) → Breaks (s.note l v)) :
    Breaks s := by
  have hg : Apart s (.view l) ∧ l ≠ .runBlock ∧ l ≠ .draw .queue := by
    rcases hl with rfl | ⟨f, rfl⟩ | ⟨b, rfl⟩
    · exact ⟨h.presenting, nofun, nofun⟩
    · exact ⟨trivial, nofun, nofun⟩
    · exact ⟨trivial, nofun, nofun⟩
  refine h.next hg.1 (fun hrun => absurd hrun hg.2.1) hv (by rw [hpc]) hstop fun h' => ?_
  refine hb ⟨h', ?_, ?_⟩
  · rw [SemState.note_view, hpc, h.queue]
  · rw [s.note_presenting hg.2.2, h.presenting]

theorem Free.enqueue (h : Free s) (hvo : s.view.vo = .enqueue) : Breaks s := by
  refine h.vo (v := { s.view with calls := s.view.calls + 1, vo := .wait s.view.calls })
    (.inl rfl) (by simp [step, State.update, hvo]) rfl rfl fun h' => h'.block ?_
  rw [SemState.note_view]
  exact Nat.lt_succ_of_le h.counted.started

theorem Free.glupdate (h : Free s) (hvo : s.view.vo = .glupdate) : Breaks s := by
  refine h.vo (v := { s.view with vo := .enqueue }) (.inl rfl)
    (by simp [step, State.update, hvo, h.isStopDraw]) rfl rfl fun h' => h'.enqueue ?_
  rw [SemState.note_view]

theorem Free.update (h : Free s) (hvo : s.view.vo = .update) : Breaks s := by
  have hlock : s.view.updateLock = false := by rw [h.handover.lock, hvo, VoPc.inCallback]
  have hcb := h.unstopped.updateCb h.isStopDraw
  refine h.vo (v := { s.view with updateLock := true, vo := .glupdate }) (.inl rfl)
    (by simp [step, State.update, hvo, hlock, hcb]) rfl rfl fun h' => h'.glupdate ?_
  rw [SemState.note_view]

/-- Another frame comes. -/
theorem Free.idle (h : Free s) (hvo : s.view.vo = .idle) : Breaks s := by
  have hdone : s.view.shutDown ≠ .done := by
    rcases h.unstopped.shutDown h.isStopDraw with hp | hp <;> simp [hp]
  let f : Mpv.VoFrame := ⟨true, true⟩
  refine h.vo (v := { s.view with ctx := s.view.ctx.drawFrame f, vo := .update })
    (.inr (.inl ⟨f, rfl⟩)) (by simp [step, hvo, hdone]) rfl rfl fun h' => h'.update ?_
  rw [SemState.note_view]

theorem Free.flip (h : Free s) (hvo : s.view.vo = .flip) : Breaks s := by
  obtain ⟨ctx, hctx⟩ : ∃ ctx, s.view.ctx.flipPage true = some ctx := by
    unfold RenderContext.flipPage
    split <;> exact ⟨_, rfl⟩
  refine h.vo (v := { s.view with ctx := ctx, vo := .idle }) (.inr (.inr ⟨true, rfl⟩))
    (by simp [step, hvo, hctx]) rfl rfl fun h' => h'.idle ?_
  rw [SemState.note_view]

theorem Free.leave (h : Free s) (hvo : s.view.vo = .leave) : Breaks s := by
  refine h.vo (v := { s.view with updateLock := false, vo := .flip }) (.inl rfl)
    (by simp [step, State.update, hvo]) rfl rfl fun h' => h'.flip ?_
  rw [SemState.note_view]

/-- The block is still to come, or its signal is there. -/
theorem Free.wait (h : Free s) {k : Nat} (hvo : s.view.vo = .wait k) : Breaks s := by
  rcases Nat.lt_or_ge s.view.started s.view.calls with hlt | hge
  · exact h.block hlt
  have hsem : 0 < s.view.drawSem := by
    have hdraw : s.view.inDrawRect = false := by simp [State.inDrawRect, h.queue]
    have hsignals := h.counted.signals
    simp only [State.waiting, hvo, hdraw, Bool.toNat_true, Bool.toNat_false] at hsignals
    omega
  refine h.vo (v := { s.view with drawSem := s.view.drawSem - 1, vo := .leave }) (.inl rfl)
    (by simp [step, State.update, hvo, hsem]) rfl rfl fun h' => h'.leave ?_
  rw [SemState.note_view]

theorem Free.breaks (h : Free s) : Breaks s := by
  cases hvo : s.view.vo with
  | idle => exact h.idle hvo
  | update => exact h.update hvo
  | glupdate => exact h.glupdate hvo
  | enqueue => exact h.enqueue hvo
  | wait k => exact h.wait hvo
  | leave => exact h.leave hvo
  | flip => exact h.flip hvo

/-- `drawQueue` is outside of `drawRect:`, perhaps still in `display`. -/
theorem Overtaken.outside (h : Overtaken s) (hpc : s.view.pc .queue = .idle) : Breaks s := by
  cases hpres : s.presenting with
  | false => exact Free.breaks ⟨h, hpc, hpres⟩
  | true =>
    have hs : semStep s .displayed =
        some { s with presenting := false, finished := s.finished + 1 } := by
      rw [semStep, if_pos hpres]
    refine .step (l := .displayed) trivial hs (Free.breaks ⟨?_, hpc, rfl⟩)
    exact ⟨h.counted.step hs, h.handover, h.unstopped, h.main, h.isStopDraw⟩

/-- While UIKit draws, a display block comes to draw too. -/
theorem Overtaken.breaks (h : Overtaken s) : Breaks s := by
  cases hpc : s.view.pc .queue with
  | idle => exact h.outside hpc
  | test => exact h.test hpc
  | enter => exact h.enter hpc
  | draw => exact h.drawing (.inl hpc)
  | present n => exact h.drawing (.inr ⟨n, hpc⟩)
  | signal =>
    refine h.next (l := .draw .queue)
      (v := State.goto { s.view with drawSem := s.view.drawSem + 1 } .queue .idle) trivial nofun
      (by simp [step, State.canCBDraw, hpc]) (by simp [State.goto_pc]) rfl fun h' => ?_
    exact h'.outside (by rw [SemState.note_view, State.goto_pc_self])

end overtaken

/-- A call takes a signal before its block has finished. -/
theorem not_exact_of_return {s s' : SemState} {k : Nat} (hvo : s.view.vo = .wait k)
    (hk : s.finished ≤ k) (hs : semStep s (.view .update) = some s') : ¬ Exact s' := by
  obtain ⟨-, v, -, rfl⟩ := semStep_view hs
  intro he
  have hlt : k < s.finished :=
    he.after ⟨k, s.signalled, s.finished⟩ (by simp [SemState.note, hvo])
  exact absurd hlt (Nat.not_lt.mpr hk)

theorem breaks_of_return {s : SemState} {k : Nat} (hvo : s.view.vo = .wait k)
    (hsem : 0 < s.view.drawSem) (hpres : s.presenting = false) (hk : s.finished ≤ k) :
    Breaks s := by
  have hv : step s.view .update =
      some { s.view with drawSem := s.view.drawSem - 1, vo := .leave } := by
    simp [step, State.update, hvo, hsem]
  have hs := semStep_of_step (l := .update) (by rintro ⟨⟩) hv
  exact .step (l := .view .update) hpres hs (.now (not_exact_of_return hvo hk hs))

theorem breaks_of_draw_main {s : SemState} {v : State} (hv : step s.view (.draw .main) = some v)
    (hb : Breaks (s.note (.draw .main) v)) : Breaks s :=
  .step (l := .view (.draw .main)) trivial (semStep_of_step (l := .draw .main) (by rintro ⟨⟩) hv) hb

/-- Where `isStopDraw` is set, it is the signal of UIKit's draw that comes too early. -/
theorem breaks_of_signal {s : SemState} (hc : Counted s) (hp : Prompt s)
    (hspent : ¬ Spent s.view) (hstop : s.view.isStopDraw = true) {v : State}
    (hv : v = State.goto { s.view with drawSem := s.view.drawSem + 1 } .main .idle) :
    Breaks { s with view := v, uikitSignals := s.uikitSignals + 1 } := by
  have hfinished := hc.finished
  have hstarted := hc.started
  have hqueue (hin : s.view.inDrawRect = false) : s.view.pc .queue = .idle := by
    simpa [State.inDrawRect] using hin
  have hvo : v.vo = s.view.vo := by rw [hv, State.goto_vo]
  have hsem : v.drawSem = s.view.drawSem + 1 := by rw [hv, State.goto_drawSem]
  cases hw : s.view.waiting with
  | false =>
    obtain ⟨hall, hpres, hin⟩ := hp.idle hc hw
    simp only [hpres, hin, Bool.toNat_false] at hfinished
    -- the block of the call is still to be enqueued
    have henqueue : s.view.vo = .enqueue := by
      by_contra hne
      exact hspent ⟨hstop, hne, by omega, hqueue hin⟩
    have hstep : step v .update = some { v with calls := v.calls + 1, vo := .wait v.calls } := by
      simp [step, State.update, hvo, henqueue]
    have hcalls : v.calls = s.view.calls := by rw [hv, State.goto_calls]
    refine .step (l := .view .update) hpres (semStep_of_step (l := .update) (by rintro ⟨⟩) hstep) ?_
    simp only [SemState.note, hvo, henqueue]
    exact breaks_of_return (k := v.calls) rfl (by rw [hsem]; exact Nat.succ_pos _) hpres
      (Nat.le_of_eq (hall.trans hcalls.symm))
  | true =>
    obtain ⟨k, hk⟩ : ∃ k, s.view.vo = .wait k := by
      cases hp : s.view.vo <;> simp [State.waiting, hp] at hw ⊢
    have hnumber := hc.wait k hk
    have hfinishing := hp.finishing
    rw [hw, Bool.toNat_true] at hfinishing
    have hdrained (heq : s.view.started = s.view.calls) (hin : s.view.inDrawRect = false) :
        False :=
      hspent ⟨hstop, by simp [hk], heq, hqueue hin⟩
    have hpres : s.presenting = false := by
      by_contra hp
      have hp' : s.presenting = true := by simpa using hp
      have hin : s.view.inDrawRect = false := by simp [State.inDrawRect, hc.presenting hp']
      simp only [hp', hin, Bool.toNat_true, Bool.toNat_false] at hfinished
      exact hdrained (by omega) hin
    refine breaks_of_return (hvo.trans hk) (by rw [hsem]; exact Nat.succ_pos _) hpres ?_
    show s.finished ≤ k
    by_contra hgt
    simp only [hpres, Bool.toNat_false] at hfinished
    exact hdrained (by omega) (Bool.toNat_eq_zero.mp (by omega))

/-- A draw of UIKit that comes too early can be overtaken by a display block, or its signal
    is taken for that of a block. -/
theorem breaks_of_uikitDraw {s s' : SemState} (hc : Counted s) (hp : Prompt s)
    (hh : Handover s.view) (hu : Unstopped s.view) (hspent : ¬ Spent s.view)
    (hs : semStep s (.view .uikitDraw) = some s') : Breaks s' := by
  have hcounted := hc.step hs
  obtain ⟨-, v, hv, rfl⟩ := semStep_view hs
  have hhandover := hh.step hv
  have hunstopped := hu.step hv
  obtain ⟨-, -, rfl⟩ := uikitDraw_cases hv
  cases hstop : s.view.isStopDraw with
  | false =>
    have htest : step (s.view.goto .main .test) (.draw .main) =
        some ((s.view.goto .main .test).goto .main .enter) := by
      simp [step, State.canCBDraw, hstop]
    have henter : step ((s.view.goto .main .test).goto .main .enter) (.draw .main) =
        some (((s.view.goto .main .test).goto .main .enter).goto .main .draw) := by
      simp [step, State.canCBDraw]
    refine breaks_of_draw_main htest (breaks_of_draw_main henter (Overtaken.breaks ?_))
    refine ⟨?_, ?_, ?_, State.goto_pc_self .., hstop⟩
    · exact (hcounted.step (semStep_of_step (l := .draw .main) (by rintro ⟨⟩) htest)).step
        (semStep_of_step (l := .draw .main) (by rintro ⟨⟩) henter)
    · exact (hhandover.step htest).step henter
    · exact (hunstopped.step htest).step henter
  | true =>
    have htest : step (s.view.goto .main .test) (.draw .main) =
        some ((s.view.goto .main .test).goto .main .signal) := by
      simp [step, State.canCBDraw, hstop]
    have hsignal : step ((s.view.goto .main .test).goto .main .signal) (.draw .main) =
        some (State.goto { s.view with drawSem := s.view.drawSem + 1 } .main .idle) := by
      simp [step, State.canCBDraw, State.goto]
    refine breaks_of_draw_main htest (breaks_of_draw_main hsignal ?_)
    simpa [SemState.note] using breaks_of_signal hc hp hspent hstop rfl

/-- While a block has signalled and `display` has not returned, its call waits. -/
theorem breaks_of_presenting {s s' : SemState} (hc : Counted s) (hp : Prompt s)
    (hpres : s.presenting = true) (hs : semStep s (.view .update) = some s') : Breaks s' := by
  have hw : s.view.waiting = true := by
    by_contra hw
    simpa [hpres] using (hp.idle hc (by simpa using hw)).2.1
  obtain ⟨k, hk⟩ : ∃ k, s.view.vo = .wait k := by
    cases hvo : s.view.vo <;> simp [State.waiting, hvo] at hw ⊢
  have hfinished := hc.finished
  have hstarted := hc.started
  have hnumber := hc.wait k hk
  simp only [hpres, Bool.toNat_true] at hfinished
  exact .now (not_exact_of_return hk (by omega) hs)

theorem view_of_under {G : semaphore.Guard} {I : State → Prop} {s : SemState}
    (h : semaphore.Under G s) (hinit : I .afterInitView)
    (hstep : ∀ v v' l, I v → step v l = some v' → I v') : I s.view := by
  apply h.invariant
  · rintro s rfl
    exact hinit
  · intro s s' l hi _ hs
    cases l with
    | displayed =>
      simp only [semaphore, semStep, Option.ite_none_right_eq_some, Option.some.injEq] at hs
      obtain ⟨-, rfl⟩ := hs
      exact hi
    | view l =>
      obtain ⟨-, v, hv, rfl⟩ := semStep_view hs
      rw [SemState.note_view]
      exact hstep _ _ _ hi hv

/-- Where UIKit draws last, draws do not overlap, and each call of `updateCBDraw` returns after its
    block has signalled. In every run that keeps to `Apart` the block has finished, too; and a step
    that does not keep to it can be followed by one after which the semaphore is not exact. -/
theorem exact_of_apart {s : SemState} :
    (semaphore.Under DrawsLast s → Rendezvous s) ∧
      (semaphore.Under Apart s →
        Exact s ∧ ∀ l s', semStep s l = some s' → (Apart s l ↔ ¬ Breaks s')) := by
  refine ⟨fun h => (paired_of_drawsLast h).rendezvous, fun h => ?_⟩
  have hpaired := paired_of_apart h
  have hprompt := prompt_of_apart h
  have hcounted := counted_of_under h
  refine ⟨hprompt.exact hpaired, fun l s' hs => ⟨fun hg hb => ?_, fun hb => ?_⟩⟩
  · obtain ⟨t, ht, hnot⟩ := (h.step hg hs).may hb
    exact hnot ((prompt_of_apart ht).exact (paired_of_apart ht))
  · by_contra hg
    apply hb
    cases l with
    | displayed => exact absurd trivial hg
    | view l =>
      cases l with
      | uikitDraw =>
        refine breaks_of_uikitDraw hcounted hprompt ?_ ?_ hg hs
        · exact view_of_under h .afterInitView fun _ _ _ hi hv => hi.step hv
        · exact view_of_under h ⟨fun _ => rfl, fun _ => .inl rfl⟩ fun _ _ _ hi hv => hi.step hv
      | update => exact breaks_of_presenting hcounted hprompt (by simpa [Apart] using hg) hs
      | drawFrame | flipPage | runBlock | draw | callShutDown | shutDown =>
        exact absurd trivial hg

/-- A frame that is drawn without waiting for `flip_page`. -/
def redraw : VoFrame := ⟨true, true⟩

/-- The VO thread stores a frame and calls back, up to its wait on `drawSem`. -/
def callBack : List SemLabel :=
  (.view (.drawFrame redraw)) :: List.replicate 3 (.view .update)

/-- A draw goes on for `n` steps. -/
def draws (t : Drawer) (n : Nat) : List SemLabel := .replicate n (.view (.draw t))

/-- A test that is enough for `Apart`. -/
def apart (s : SemState) : SemLabel → Bool
  | .view .uikitDraw =>
    s.view.isStopDraw && s.view.vo != .enqueue && s.view.started == s.view.calls &&
      s.view.pc .queue == .idle
  | .view .update => !s.presenting
  | _ => true

theorem apart_of_test (s : SemState) (l : SemLabel) (h : apart s l = true) : Apart s l := by
  cases l with
  | displayed => trivial
  | view l =>
    cases l with
    | update => simpa [apart, Apart] using h
    | uikitDraw =>
      simp only [apart, Bool.and_eq_true, bne_iff_ne, beq_iff_eq] at h
      exact ⟨h.1.1.1, h.1.1.2, h.1.2, h.2⟩
    | drawFrame | flipPage | runBlock | draw | callShutDown | shutDown => trivial

/-- The block is drawn and presented before the call returns, and UIKit draws after
    `isStopDraw` was set. -/
theorem exact_after_frame :
    ∃ s, semaphore.Under Apart s ∧ s.returned = [⟨0, 1, 1⟩] ∧ s.uikitSignals = 1 ∧ Exact s := by
  obtain ⟨s, hs, htest⟩ := Machine.Under.execIf_any apart_of_test
    (.init rfl : semaphore.Under Apart {})
    (callBack ++ [.view .runBlock] ++ draws .queue 5 ++ [.displayed, .view .update] ++
      [.view (.callShutDown false), .view .shutDown, .view .uikitDraw] ++ draws .main 2)
    (p := fun s => decide (s.returned = [⟨0, 1, 1⟩] ∧ s.uikitSignals = 1)) (by decide +kernel)
  obtain ⟨hreturned, hsignals⟩ := of_decide_eq_true htest
  exact ⟨s, hs, hreturned, hsignals, (exact_of_apart.2 hs).1⟩

/-- UIKit draws while the display block does. -/
theorem not_exact_with_uikit : ¬ ∀ s, semaphore.Reachable s → Exact s := by
  intro h
  obtain ⟨s, hs, hboth⟩ := Machine.Reachable.exec_any
    (.init rfl : semaphore.Reachable {})
    (callBack ++ [.view .runBlock] ++ draws .queue 2 ++ [.view .uikitDraw] ++ draws .main 2)
    (p := fun s => s.view.pc .queue = .draw ∧ s.view.pc .main = .draw) (by decide +kernel)
  obtain ⟨hqueue, hmain⟩ := of_decide_eq_true hboth
  exact (h s hs).alone ⟨.inl hqueue, .inl hmain⟩

end View
