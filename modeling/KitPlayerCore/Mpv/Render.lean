-- SUMMARY: The render context of `vo_libmpv.c`: the frame handed from the VO thread to the drawing thread, and the present count.
import Mathlib.Logic.Basic

/-!
# The render context

The part of `struct mpv_render_context` through which the VO thread and a
drawing thread meet, and the locked regions of `draw_frame`, `flip_page` and
`mpv_render_context_render` as functions on it. Every region below runs under
`ctx->lock`, so it is one step. What is drawn is left out: `cur_frame`, the
target size and the renderer decide pixels and never whether a thread waits.
-/

namespace Mpv

/-- The fields of `struct vo_frame` that decide whether drawing it blocks.
    `current` says that the pointer is not `NULL`. -/
structure VoFrame where
  redraw : Bool
  current : Bool
  deriving DecidableEq, Repr

/-- A frame that shows nothing new. Drawing any other frame waits for
    `flip_page`. -/
def VoFrame.isRedraw (f : VoFrame) : Bool := f.redraw || !f.current

structure RenderContext where
  /-- Whether an update callback is set. -/
  updateCb : Bool
  nextFrame : Option VoFrame := none
  presentCount : Nat := 0
  deriving DecidableEq, Repr

namespace RenderContext

/-- The locked region of `draw_frame`. -/
def drawFrame (ctx : RenderContext) (f : VoFrame) : RenderContext :=
  { ctx with nextFrame := some f }

/-- The first locked region of `mpv_render_context_render`. The number is
    `wait_present_count`: the call blocks until `present_count` has reached it. -/
def takeFrame (ctx : RenderContext) : RenderContext × Nat :=
  match ctx.nextFrame with
  | some f =>
    ({ ctx with nextFrame := none },
      if f.isRedraw then ctx.presentCount else ctx.presentCount + 1)
  | none => (ctx, ctx.presentCount)

/-- `flip_page`. It waits until the frame was taken, for 0.2 s at most:
    `timeout` says that it gave up. The second loop of the source waits for
    `mpv_opengl_cb_report_flip`; nothing calls that, so `flip_count` is 0 and
    the loop breaks at once. -/
def flipPage (ctx : RenderContext) (timeout : Bool) : Option RenderContext :=
  match ctx.nextFrame with
  | none => some { ctx with presentCount := ctx.presentCount + 1 }
  | some _ =>
    if timeout then
      some { ctx with nextFrame := none, presentCount := ctx.presentCount + 2 }
    else none

@[simp] theorem drawFrame_updateCb (ctx : RenderContext) (f : VoFrame) :
    (ctx.drawFrame f).updateCb = ctx.updateCb := rfl

@[simp] theorem drawFrame_presentCount (ctx : RenderContext) (f : VoFrame) :
    (ctx.drawFrame f).presentCount = ctx.presentCount := rfl

@[simp] theorem takeFrame_updateCb (ctx : RenderContext) :
    ctx.takeFrame.1.updateCb = ctx.updateCb := by
  unfold takeFrame; split <;> rfl

@[simp] theorem takeFrame_presentCount (ctx : RenderContext) :
    ctx.takeFrame.1.presentCount = ctx.presentCount := by
  unfold takeFrame; split <;> rfl

@[simp] theorem takeFrame_nextFrame (ctx : RenderContext) :
    ctx.takeFrame.1.nextFrame = none := by
  unfold takeFrame
  split
  · rfl
  · assumption

/-- A draw waits for at most one more `flip_page`. -/
theorem takeFrame_target_le (ctx : RenderContext) :
    ctx.takeFrame.2 ≤ ctx.presentCount + 1 := by
  unfold takeFrame
  split
  · dsimp only; split <;> omega
  · exact Nat.le_succ _

/-- A draw blocks exactly when it takes a frame that shows something new. -/
theorem takeFrame_blocks_iff (ctx : RenderContext) :
    ctx.presentCount < ctx.takeFrame.2 ↔ ∃ f, ctx.nextFrame = some f ∧ f.isRedraw = false := by
  unfold takeFrame
  split
  case h_1 f h =>
    cases hf : f.isRedraw <;> simp [hf, h]
  case h_2 h => simp [h]

/-- `flip_page` always leaves with the frame taken and the present count
    advanced. -/
theorem flipPage_spec {ctx ctx' : RenderContext} {timeout : Bool}
    (h : ctx.flipPage timeout = some ctx') :
    ctx'.nextFrame = none ∧ ctx.presentCount < ctx'.presentCount ∧
      ctx'.updateCb = ctx.updateCb := by
  unfold flipPage at h
  split at h
  · cases h
    exact ⟨by assumption, Nat.lt_succ_self _, rfl⟩
  · split at h
    · cases h
      exact ⟨rfl, by dsimp only; omega, rfl⟩
    · cases h

end RenderContext

end Mpv
