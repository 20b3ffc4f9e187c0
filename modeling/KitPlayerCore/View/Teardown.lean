-- SUMMARY: When `shutDown` tears the GL state down under a running draw, and the runs in which it does not.
import KitPlayerCore.View.Deadlock

/-!
# Draws and teardown

`shutDown` sets `isStopDraw`, clears the update callback, and then frees the GL
state. Clearing the callback waits for `update_lock`, so it waits for a callback
that is running, and a callback outlives the draw that signals it. That is the
whole protection: a draw of UIKit holds no lock, and a signal that is not the
block's own lets the callback return before the block has drawn.
-/

namespace View

open Mpv Transition

/-- `mpv_opengl_cb_draw` is in progress on the thread `t`. -/
def Drawing (s : State) (t : Drawer) : Prop :=
  s.pc t = .draw ∨ ∃ n, s.pc t = .present n

/-- `shutDown` has called `mpv_opengl_cb_uninit_gl`. -/
def UninitCalled (s : State) : Prop :=
  s.shutDown = .freeing ∨ s.shutDown = .done

/-- The thread found `isStopDraw` unset and has not finished its draw. -/
def DrawPc.pastTest : DrawPc → Bool
  | .enter | .draw | .present _ => true
  | .idle | .test | .signal => false

theorem Drawing.pastTest {s : State} {t : Drawer} (h : Drawing s t) :
    (s.pc t).pastTest = true := by
  rcases h with h | ⟨n, h⟩ <;> rw [h] <;> rfl

/-- The update callback will not return without one more signal of `drawSem`. -/
def Awaiting (s : State) : Prop :=
  (s.vo = .enqueue ∨ ∃ k, s.vo = .wait k) ∧ s.drawSem = 0

/-- When `isStopDraw` is set, no draw of UIKit is past its test, and a display
    block that is past it still has its callback waiting. Until the callback is
    cleared, no `drawRect:` of UIKit signals while such a block draws. -/
def Settled (s : State) (l : Label) : Prop :=
  (l = .shutDown → s.shutDown = .stopDraw →
    (s.pc .main).pastTest = false ∧ ((s.pc .queue).pastTest = true → Awaiting s)) ∧
  (l = .draw .main → s.pc .main = .signal → s.shutDown = .clearCallback →
    (s.pc .queue).pastTest = false)

/-- What holds of the drawing threads once `isStopDraw` is set. -/
structure Stopping (s : State) : Prop where
  begun : s.isStopDraw = true → s.shutDown ≠ .idle ∧ s.shutDown ≠ .stopDraw
  called : s.shutDown ≠ .idle → s.shutDown ≠ .stopDraw → s.isStopDraw = true
  main : s.isStopDraw = true → (s.pc .main).pastTest = false
  queue : s.isStopDraw = true → (s.pc .queue).pastTest = true →
    s.shutDown = .clearCallback ∧ Awaiting s

theorem Stopping.afterInitView : Stopping .afterInitView where
  begun h := by cases h
  called h := absurd rfl h
  main _ := rfl
  queue h := by cases h

/-- The callback cannot be cleared while a display block draws. -/
theorem Stopping.cleared {s : State} (hh : Handover s) (h : Stopping s)
    (hstop : s.isStopDraw = true) (hlock : s.updateLock = false) :
    (s.pc .queue).pastTest = false := by
  by_contra hp
  obtain ⟨_, hv, _⟩ := h.queue hstop (by simpa using hp)
  have hcb := hh.lock
  rcases hv with hv | ⟨k, hv⟩ <;> simp [hv, hlock, VoPc.inCallback] at hcb

/-- A step of `canCBDraw` on the draw queue that is past its test only if it was. -/
private theorem Stopping.gotoQueue {s : State} (h : Stopping s) {pc : DrawPc}
    (hpc : pc.pastTest = true → s.isStopDraw = true → (s.pc .queue).pastTest = true) :
    Stopping (s.goto .queue pc) where
  begun := h.begun
  called := h.called
  main hstop := by simpa [State.goto_pc] using h.main hstop
  queue hstop hp := h.queue hstop (hpc (by simpa using hp) hstop)

private theorem Stopping.gotoMain {s : State} (h : Stopping s) {pc : DrawPc}
    (hpc : s.isStopDraw = true → pc.pastTest = false) :
    Stopping (s.goto .main pc) where
  begun := h.begun
  called := h.called
  main hstop := by simpa using hpc hstop
  queue hstop hp := h.queue hstop (by simpa [State.goto_pc] using hp)

/-- Taking a frame concerns the frame only. -/
private theorem Stopping.take {s : State} (h : Stopping s) :
    Stopping { s with ctx := s.ctx.takeFrame.1 } :=
  ⟨h.begun, h.called, h.main, h.queue⟩

theorem Stopping.step {s s' : State} {l : Label} (hh : Handover s) (h : Stopping s)
    (hg : Settled s l) (hs : step s l = some s') : Stopping s' := by
  cases l with
  | drawFrame f =>
    obtain ⟨hidle, rfl⟩ := drawFrame_cases hs
    refine ⟨h.begun, h.called, h.main, fun hstop hp => ?_⟩
    obtain ⟨_, hv, _⟩ := h.queue hstop hp
    rcases hv with hv | ⟨k, hv⟩ <;> simp [hidle] at hv
  | update =>
    obtain ⟨hv, _, _, rfl⟩ | ⟨hv, _, _, rfl⟩ | ⟨hv, _, rfl⟩ | ⟨hv, _, rfl⟩ | ⟨hv, rfl⟩ |
      ⟨k, hv, hsem, rfl⟩ | ⟨hv, rfl⟩ := update_cases hs
    all_goals
      refine ⟨h.begun, h.called, h.main, fun hstop hp => ?_⟩
      obtain ⟨hclear, hawait, hzero⟩ := h.queue hstop hp
    case inr.inr.inr.inr.inl =>
      exact ⟨hclear, .inr ⟨s.calls, rfl⟩, hzero⟩
    case inr.inr.inr.inr.inr.inl => omega
    all_goals simp [hv] at hawait
  | flipPage timeout =>
    obtain ⟨hv, ctx, _, rfl⟩ := flipPage_cases hs
    refine ⟨h.begun, h.called, h.main, fun hstop hp => ?_⟩
    obtain ⟨_, hawait, _⟩ := h.queue hstop hp
    simp [hv] at hawait
  | runBlock =>
    obtain ⟨_, _, rfl⟩ := runBlock_cases hs
    have h' : Stopping { s with started := s.started + 1 } :=
      ⟨h.begun, h.called, h.main, h.queue⟩
    exact h'.gotoQueue (by simp [DrawPc.pastTest])
  | uikitDraw =>
    obtain ⟨_, _, rfl⟩ := uikitDraw_cases hs
    exact h.gotoMain fun _ => rfl
  | draw t =>
    obtain ⟨_, _, rfl⟩ | ⟨_, hrun, rfl⟩ | ⟨hp, rfl⟩ | ⟨hp, _, rfl⟩ | ⟨_, _, rfl⟩ | ⟨n, _, _, rfl⟩ |
      ⟨hp, rfl⟩ := draw_cases hs
    case inr.inr.inr.inr.inr.inr =>
      have hsignal : Stopping { s with drawSem := s.drawSem + 1 } := by
        refine ⟨h.begun, h.called, h.main, fun hstop hpast => ?_⟩
        have hclear := (h.queue hstop hpast).1
        cases t with
        | queue => simp [hp, DrawPc.pastTest] at hpast
        | main => simp [hg.2 rfl hp hclear] at hpast
      cases t with
      | queue => exact hsignal.gotoQueue (by simp [DrawPc.pastTest])
      | main => exact hsignal.gotoMain fun _ => rfl
    all_goals cases t with
      | queue =>
        first
          | exact h.gotoQueue (by simp_all [DrawPc.pastTest])
          | exact h.take.gotoQueue (by simp_all [DrawPc.pastTest])
      | main =>
        have hmain := h.main
        first
          | exact h.gotoMain (by simp_all [DrawPc.pastTest])
          | exact h.take.gotoMain (by simp_all [DrawPc.pastTest])
  | callShutDown onMain =>
    obtain ⟨hidle, rfl⟩ := callShutDown_cases hs
    have hrun : s.isStopDraw ≠ true := fun hstop => (h.begun hstop).1 hidle
    exact ⟨fun hstop => absurd hstop hrun, fun _ hne => absurd rfl hne,
      fun hstop => absurd hstop hrun, fun hstop => absurd hstop hrun⟩
  | shutDown =>
    obtain ⟨hp, rfl⟩ | ⟨hp, hlock, rfl⟩ | ⟨hp, rfl⟩ | ⟨hp, _, rfl⟩ := shutDown_cases hs
    · obtain ⟨hmain, hqueue⟩ := hg.1 rfl hp
      exact ⟨fun _ => by simp, fun _ _ => rfl, fun _ => hmain, fun _ hpast => ⟨rfl, hqueue hpast⟩⟩
    all_goals
      have hstop : s.isStopDraw = true := h.called (by simp [hp]) (by simp [hp])
      refine ⟨fun _ => by simp, fun _ _ => hstop, h.main, fun _ hpast => ?_⟩
    · rw [h.cleared hh hstop hlock] at hpast
      cases hpast
    all_goals
      have := (h.queue hstop hpast).1
      simp [hp] at this

theorem stopping_of_settled {s : State} (h : rendezvous.Under Settled s) : Stopping s :=
  h.invariant_of (J := Handover) (fun _ => handover_of_under) (fun _ h => h ▸ .afterInitView)
    fun _ _ _ hh hi hg hs => hi.step hh hg hs

/-- From the call of `mpv_opengl_cb_uninit_gl` on no draw is in progress, in every
    run in which the draws have settled. -/
theorem not_drawing_of_settled {s : State} (h : rendezvous.Under Settled s)
    (hu : UninitCalled s) (t : Drawer) : ¬ Drawing s t := by
  have hi := stopping_of_settled h
  intro hd
  have hpast := hd.pastTest
  have hne : s.shutDown ≠ .idle ∧ s.shutDown ≠ .stopDraw ∧ s.shutDown ≠ .clearCallback := by
    rcases hu with hu | hu <;> simp [hu]
  have hstop := hi.called hne.1 hne.2.1
  cases t with
  | main => simp [hi.main hstop] at hpast
  | queue => exact hne.2.2 (hi.queue hstop hpast).1

/-- A display block is drawing while `shutDown` stops drawing: its own callback
    waits for it, and so does the teardown. -/
theorem not_drawing_after_block :
    ∃ s, rendezvous.Under Settled s ∧ UninitCalled s ∧ s.calls = 1 ∧ ¬ Drawing s .queue := by
  have hrun : rendezvous.Under Settled _ :=
    (Machine.Under.init (s := State.afterInitView) rfl).exec
      ([.drawFrame ⟨true, true⟩, .update, .update, .update] ++
        [.runBlock, .draw .queue, .draw .queue, .callShutDown false, .shutDown] ++
        [.draw .queue, .draw .queue, .draw .queue, .update, .update, .shutDown, .shutDown])
      (by simp [Machine.Meets, Settled, Awaiting, DrawPc.pastTest, rendezvous, step, State.update,
            State.canCBDraw, State.shutDownStep, State.goto, State.afterInitView, Function.update,
            RenderContext.takeFrame, RenderContext.drawFrame, VoFrame.isRedraw])
      rfl
  exact ⟨_, hrun, .inl rfl, rfl, not_drawing_of_settled hrun (.inl rfl) .queue⟩

/-- UIKit's `drawRect:` has tested `isStopDraw` when `shutDown` sets it, and calls
    `mpv_opengl_cb_draw` after `mpv_opengl_cb_uninit_gl` was called. -/
theorem drawing_after_uninit :
    ¬ ∀ s, rendezvous.Reachable s → UninitCalled s → ∀ t, ¬ Drawing s t := by
  intro h
  have hrun : rendezvous.Reachable _ :=
    Machine.Reachable.exec (.init (s := State.afterInitView) rfl)
      [.uikitDraw, .draw .main, .callShutDown false, .shutDown, .shutDown, .shutDown,
        .draw .main]
      rfl
  exact h _ hrun (.inl rfl) .main (.inl rfl)

end View
