-- SUMMARY: The draw rendezvous of `KitNSLKView` as a machine: the VO thread, the serial draw queue, UIKit's main thread, and `shutDown`.
import KitPlayerCore.Mpv.Render
import KitPlayerCore.Transition.Machine
import Mathlib.Logic.Function.Basic

/-!
# The draw rendezvous

Three threads draw. The VO thread stores a frame and calls back into
`updateCBDraw`, which hands a display block to the serial `drawQueue` and waits
on `drawSem`. The queue runs `display`, hence `drawRect:`. UIKit may call
`drawRect:` on the main thread at any time. A fourth actor is the one call of
`shutDown`.

Each step of the machine is one statement of the source, or one region under a
lock that nothing inside the region can block.
-/

namespace View

open Mpv

/-- The threads that run `drawRect:`. -/
inductive Drawer where
  /-- The serial queue `drawQueue`. -/
  | queue
  /-- The main thread, called by UIKit. -/
  | main
  deriving DecidableEq, Repr

/-- Where a thread is in `drawRect:`, which is only `canCBDraw`. -/
inductive DrawPc where
  | idle
  /-- About to test `isStopDraw`. -/
  | test
  /-- The test found `false`; about to call `mpv_opengl_cb_draw`. -/
  | enter
  /-- In `mpv_opengl_cb_draw`, before it takes the frame. -/
  | draw
  /-- In `mpv_opengl_cb_draw`, which returns when the present count is `n`. -/
  | present (n : Nat)
  /-- About to signal `drawSem`. -/
  | signal
  deriving DecidableEq, Repr

/-- Where the VO thread is between `draw_frame` and the end of `flip_page`. -/
inductive VoPc where
  | idle
  /-- The frame is stored; about to lock `update_lock` in `update`. -/
  | update
  /-- In `glupdate`, about to test `isStopDraw`. -/
  | glupdate
  /-- In `updateCBDraw`, about to enqueue the display block. -/
  | enqueue
  /-- In `updateCBDraw`, waiting on `drawSem` with its block number `k`. -/
  | wait (k : Nat)
  /-- Back in `update`, about to unlock `update_lock`. -/
  | leave
  | flip
  deriving DecidableEq, Repr

/-- Where the call of `shutDown` is. -/
inductive ShutDownPc where
  | idle
  /-- About to set `isStopDraw`. -/
  | stopDraw
  /-- About to clear the update callback. -/
  | clearCallback
  /-- About to call `mpv_opengl_cb_uninit_gl`. -/
  | uninit
  /-- In `mpv_opengl_cb_uninit_gl`, which waits for the VO to be released. -/
  | freeing
  | done
  deriving DecidableEq, Repr

/-- The shared state. The blocks of `drawQueue` are numbered by the calls of
    `updateCBDraw` that enqueue them: `started ≤ k < calls` are pending. -/
structure State where
  ctx : RenderContext
  /-- Whether `client_api->render_context` is set. -/
  gl : Bool := true
  updateLock : Bool := false
  vo : VoPc := .idle
  calls : Nat := 0
  started : Nat := 0
  pc : Drawer → DrawPc := fun _ => .idle
  drawSem : Nat := 0
  isStopDraw : Bool := false
  shutDown : ShutDownPc := .idle
  /-- Whether `shutDown` was called on the main thread. -/
  onMain : Bool := false

namespace State

/-- Right after `initView`: the callback is set, and the call of `glupdate`
    that setting it makes has had its block drawn and has returned. -/
def afterInitView : State where
  ctx := { updateCb := true }

/-- Move the drawing thread `t`. -/
def goto (s : State) (t : Drawer) (pc : DrawPc) : State :=
  { s with pc := Function.update s.pc t pc }

/-- `shutDown` occupies the main thread. -/
def mainBusy (s : State) : Bool :=
  s.onMain && s.shutDown != .idle && s.shutDown != .done

/-- The next statement of `canCBDraw` on the thread `t`. -/
def canCBDraw (s : State) (t : Drawer) : Option State :=
  match s.pc t with
  | .idle => none
  | .test => some (s.goto t (if s.isStopDraw then .signal else .enter))
  | .enter => some (s.goto t .draw)
  | .draw =>
    -- mpv_opengl_cb_draw refuses a context whose GL state is gone
    if s.gl then some ({ s with ctx := s.ctx.takeFrame.1 }.goto t (.present s.ctx.takeFrame.2))
    else some (s.goto t .signal)
  | .present n => if n ≤ s.ctx.presentCount then some (s.goto t .signal) else none
  | .signal => some ({ s with drawSem := s.drawSem + 1 }.goto t .idle)

/-- The next statement of `update` on the VO thread, through `glupdate` and
    `updateCBDraw`. -/
def update (s : State) : Option State :=
  match s.vo with
  | .idle | .flip => none
  | .update =>
    if s.updateLock then none
    else if s.ctx.updateCb then some { s with updateLock := true, vo := .glupdate }
    else some { s with vo := .flip }
  | .glupdate => some { s with vo := if s.isStopDraw then .leave else .enqueue }
  | .enqueue => some { s with calls := s.calls + 1, vo := .wait s.calls }
  | .wait _ =>
    if 0 < s.drawSem then some { s with drawSem := s.drawSem - 1, vo := .leave } else none
  | .leave => some { s with updateLock := false, vo := .flip }

/-- The next statement of `shutDown` that concerns drawing. -/
def shutDownStep (s : State) : Option State :=
  match s.shutDown with
  | .idle | .done => none
  | .stopDraw => some { s with isStopDraw := true, shutDown := .clearCallback }
  | .clearCallback =>
    if s.updateLock then none
    else some { s with ctx := { s.ctx with updateCb := false }, shutDown := .uninit }
  -- the context becomes invisible before its VO is waited for
  | .uninit => some { s with gl := false, shutDown := .freeing }
  | .freeing => if s.vo = .idle then some { s with shutDown := .done } else none

end State

inductive Label where
  /-- The VO thread calls `draw_frame`. -/
  | drawFrame (f : VoFrame)
  | update
  | flipPage (timeout : Bool)
  /-- `drawQueue` starts its next display block. -/
  | runBlock
  /-- UIKit calls `drawRect:`. -/
  | uikitDraw
  | draw (t : Drawer)
  | callShutDown (onMain : Bool)
  | shutDown
  deriving DecidableEq, Repr

def step (s : State) : Label → Option State
  | .drawFrame f =>
    -- the VO lives until the context is freed
    if s.vo = .idle ∧ s.shutDown ≠ .done then
      some { s with ctx := s.ctx.drawFrame f, vo := .update }
    else none
  | .update => s.update
  | .flipPage timeout =>
    if s.vo = .flip then
      (s.ctx.flipPage timeout).map fun ctx => { s with ctx := ctx, vo := .idle }
    else none
  | .runBlock =>
    if s.pc .queue = .idle ∧ s.started < s.calls then
      some ({ s with started := s.started + 1 }.goto .queue .test)
    else none
  | .uikitDraw =>
    if s.pc .main = .idle ∧ s.mainBusy = false then some (s.goto .main .test) else none
  | .draw t => s.canCBDraw t
  | .callShutDown onMain =>
    if s.shutDown = .idle ∧ (onMain → s.pc .main = .idle) then
      some { s with shutDown := .stopDraw, onMain := onMain }
    else none
  | .shutDown => s.shutDownStep

/-- The draw rendezvous, from the state right after a successful `initView`. -/
def rendezvous : Transition.Machine State Label where
  init s := s = .afterInitView
  step := step

/-! ## Moving a drawing thread -/

namespace State

@[simp] theorem goto_pc_self (s : State) (t : Drawer) (pc : DrawPc) :
    (s.goto t pc).pc t = pc := by
  simp [goto]

theorem goto_pc (s : State) (t u : Drawer) (pc : DrawPc) :
    (s.goto t pc).pc u = if u = t then pc else s.pc u := by
  simp [goto, Function.update_apply]

@[simp] theorem goto_ctx (s : State) (t : Drawer) (pc : DrawPc) :
    (s.goto t pc).ctx = s.ctx := rfl

@[simp] theorem goto_vo (s : State) (t : Drawer) (pc : DrawPc) :
    (s.goto t pc).vo = s.vo := rfl

@[simp] theorem goto_drawSem (s : State) (t : Drawer) (pc : DrawPc) :
    (s.goto t pc).drawSem = s.drawSem := rfl

@[simp] theorem goto_updateLock (s : State) (t : Drawer) (pc : DrawPc) :
    (s.goto t pc).updateLock = s.updateLock := rfl

@[simp] theorem goto_isStopDraw (s : State) (t : Drawer) (pc : DrawPc) :
    (s.goto t pc).isStopDraw = s.isStopDraw := rfl

@[simp] theorem goto_shutDown (s : State) (t : Drawer) (pc : DrawPc) :
    (s.goto t pc).shutDown = s.shutDown := rfl

@[simp] theorem goto_gl (s : State) (t : Drawer) (pc : DrawPc) :
    (s.goto t pc).gl = s.gl := rfl

end State

/-! ## What a step does

One lemma for each actor says everything that its step can do. The invariants
below are read off these lemmas, and nothing unfolds `step` again. -/

theorem drawFrame_cases {s s' : State} {f : VoFrame} (h : step s (.drawFrame f) = some s') :
    s.vo = .idle ∧ s' = { s with ctx := s.ctx.drawFrame f, vo := .update } := by
  simp only [step] at h
  split at h
  · rename_i hc
    exact ⟨hc.1, by simpa using h.symm⟩
  · cases h

/-- The callback on the VO thread. -/
theorem update_cases {s s' : State} (h : step s .update = some s') :
    (s.vo = .update ∧ s.updateLock = false ∧ s.ctx.updateCb = true ∧
      s' = { s with updateLock := true, vo := .glupdate }) ∨
    (s.vo = .update ∧ s.updateLock = false ∧ s.ctx.updateCb = false ∧
      s' = { s with vo := .flip }) ∨
    (s.vo = .glupdate ∧ s.isStopDraw = true ∧ s' = { s with vo := .leave }) ∨
    (s.vo = .glupdate ∧ s.isStopDraw = false ∧ s' = { s with vo := .enqueue }) ∨
    (s.vo = .enqueue ∧ s' = { s with calls := s.calls + 1, vo := .wait s.calls }) ∨
    (∃ k, s.vo = .wait k ∧ 0 < s.drawSem ∧
      s' = { s with drawSem := s.drawSem - 1, vo := .leave }) ∨
    (s.vo = .leave ∧ s' = { s with updateLock := false, vo := .flip }) := by
  simp only [step, State.update] at h
  cases hv : s.vo with
  | idle | flip => simp [hv] at h
  | update =>
    cases hl : s.updateLock <;> cases hc : s.ctx.updateCb <;> simp [hv, hl, hc] at h <;> simp [h]
  | glupdate =>
    cases hs : s.isStopDraw <;> simp [hv, hs] at h <;> simp [h]
  | enqueue => simp [hv] at h; simp [h]
  | wait k =>
    simp only [hv, Option.ite_none_right_eq_some, Option.some.injEq] at h
    simp [h.1, h.2]
  | leave => simp [hv] at h; simp [h]

theorem flipPage_cases {s s' : State} {timeout : Bool}
    (h : step s (.flipPage timeout) = some s') :
    s.vo = .flip ∧ ∃ ctx, s.ctx.flipPage timeout = some ctx ∧
      s' = { s with ctx := ctx, vo := .idle } := by
  simp only [step] at h
  split at h
  · rename_i hv
    obtain ⟨ctx, hctx, rfl⟩ := Option.map_eq_some_iff.mp h
    exact ⟨hv, ctx, hctx, rfl⟩
  · cases h

theorem runBlock_cases {s s' : State} (h : step s .runBlock = some s') :
    s.pc .queue = .idle ∧ s.started < s.calls ∧
      s' = { s with started := s.started + 1 }.goto .queue .test := by
  simp only [step] at h
  split at h
  · rename_i hc
    exact ⟨hc.1, hc.2, by simpa using h.symm⟩
  · cases h

theorem uikitDraw_cases {s s' : State} (h : step s .uikitDraw = some s') :
    s.pc .main = .idle ∧ s.mainBusy = false ∧ s' = s.goto .main .test := by
  simp only [step] at h
  split at h
  · rename_i hc
    exact ⟨hc.1, hc.2, by simpa using h.symm⟩
  · cases h

/-- `canCBDraw` on either drawing thread. -/
theorem draw_cases {s s' : State} {t : Drawer} (h : step s (.draw t) = some s') :
    (s.pc t = .test ∧ s.isStopDraw = true ∧ s' = s.goto t .signal) ∨
    (s.pc t = .test ∧ s.isStopDraw = false ∧ s' = s.goto t .enter) ∨
    (s.pc t = .enter ∧ s' = s.goto t .draw) ∨
    (s.pc t = .draw ∧ s.gl = true ∧
      s' = { s with ctx := s.ctx.takeFrame.1 }.goto t (.present s.ctx.takeFrame.2)) ∨
    (s.pc t = .draw ∧ s.gl = false ∧ s' = s.goto t .signal) ∨
    (∃ n, s.pc t = .present n ∧ n ≤ s.ctx.presentCount ∧ s' = s.goto t .signal) ∨
    (s.pc t = .signal ∧ s' = { s with drawSem := s.drawSem + 1 }.goto t .idle) := by
  simp only [step, State.canCBDraw] at h
  cases hp : s.pc t with
  | idle => simp [hp] at h
  | test => cases hs : s.isStopDraw <;> simp [hp, hs] at h <;> simp [h]
  | enter => simp [hp] at h; simp [h]
  | draw => cases hg : s.gl <;> simp [hp, hg] at h <;> simp [h]
  | present n =>
    simp only [hp, Option.ite_none_right_eq_some, Option.some.injEq] at h
    simp [h.1, h.2]
  | signal => simp [hp] at h; simp [h]

theorem callShutDown_cases {s s' : State} {onMain : Bool}
    (h : step s (.callShutDown onMain) = some s') :
    s.shutDown = .idle ∧ s' = { s with shutDown := .stopDraw, onMain := onMain } := by
  simp only [step] at h
  split at h
  · rename_i hc
    exact ⟨hc.1, by simpa using h.symm⟩
  · cases h

theorem shutDown_cases {s s' : State} (h : step s .shutDown = some s') :
    (s.shutDown = .stopDraw ∧ s' = { s with isStopDraw := true, shutDown := .clearCallback }) ∨
    (s.shutDown = .clearCallback ∧ s.updateLock = false ∧
      s' = { s with ctx := { s.ctx with updateCb := false }, shutDown := .uninit }) ∨
    (s.shutDown = .uninit ∧ s' = { s with gl := false, shutDown := .freeing }) ∨
    (s.shutDown = .freeing ∧ s.vo = .idle ∧ s' = { s with shutDown := .done }) := by
  simp only [step, State.shutDownStep] at h
  cases hp : s.shutDown with
  | idle | done => simp [hp] at h
  | stopDraw | uninit => simp [hp] at h; simp [h]
  | clearCallback => cases hl : s.updateLock <;> simp [hp, hl] at h; simp [h]
  | freeing =>
    simp only [hp, Option.ite_none_right_eq_some, Option.some.injEq] at h
    exact .inr (.inr (.inr ⟨rfl, h.1, h.2.symm⟩))

end View
