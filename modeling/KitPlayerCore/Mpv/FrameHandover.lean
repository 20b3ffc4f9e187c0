-- SUMMARY: The render context of `vo_libmpv.c` with its condition variable: the VO thread hands frames to any number of drawing threads, as a machine.
import KitPlayerCore.Mpv.Render
import KitPlayerCore.Transition.Machine
import KitPlayerCore.Transition.Monitor

/-!
# The render context

The VO thread leaves a frame in `next_frame` and waits in `flip_page` until it was taken. A
drawing thread takes it, hands it to the renderer, and waits until `flip_page` has counted it in
`present_count`. All of them wait on `video_wait`.

A step is one region under `ctx->lock`, from where a thread gets it to where it releases it or
waits. The renderer draws between two such regions, and the update callback runs between
`draw_frame` and `flip_page`.
-/

namespace FrameHandover

open Mpv Transition

/-- A frame, with what was sent before it. -/
structure Frame where
  /-- How many frames were sent before. -/
  id : Nat
  frame : VoFrame
  /-- The `img_params` that were set when it was sent. -/
  params : Option Nat
  deriving DecidableEq, Repr

/-- What the VO thread waits for in `flip_page`. -/
inductive VoWait where
  /-- In the first loop, until the frame was rendered. -/
  | rendered
  /-- In the second loop, until it was presented. -/
  | presented
  deriving DecidableEq, Repr

/-- Where the VO thread is. -/
inductive VoSpot where
  /-- No VO uses the context. -/
  | gone
  /-- After `preinit`, before the first `reconfig`. -/
  | fresh
  | idle
  /-- In `update`, which `draw_frame` calls after its region, and which calls the user back. -/
  | updating
  /-- Between `draw_frame` and `flip_page`. -/
  | updated
  deriving DecidableEq, Repr

/-- What a drawing thread hands to the renderer. -/
structure Draw where
  frame : Option Frame
  /-- The frame was taken before, and is marked as a redraw. -/
  repeated : Bool
  deriving DecidableEq, Repr

/-- Where a drawing thread is. If it waits, then for a number that `present_count` is to reach. -/
inductive RenderSpot where
  /-- Not in `mpv_render_context_render`. -/
  | idle
  /-- Behind its first region, in `renderer->fns->render` unless it skips that. `waits` is
      `wait_present_count`, if the call is to block for it. -/
  | rendering (draw : Option Draw) (waits : Option Nat)
  deriving DecidableEq, Repr

/-- What the renderer has drawn. -/
structure Shown extends Draw where
  /-- What the renderer was configured for then. -/
  configured : Option (Option Nat)
  deriving DecidableEq, Repr

/-- What became of a frame that has left `next_frame`. -/
inductive Fate where
  /-- It was taken to be drawn. -/
  | drawn
  /-- It was taken by a call that skips the rendering. -/
  | skipped
  /-- `flip_page` has given it up. -/
  | dropped
  deriving DecidableEq, Repr

/-- The `mpv_render_param`s of a draw. -/
structure RenderParams where
  /-- `MPV_RENDER_PARAM_SKIP_RENDERING`. -/
  skipRendering : Bool := false
  /-- `MPV_RENDER_PARAM_BLOCK_FOR_TARGET_TIME`. -/
  blockForTargetTime : Bool := true
  /-- `get_target_size` finds where to draw. -/
  hasTarget : Bool := true
  deriving DecidableEq, Repr

/-- `get_target_size` returns an error. -/
def RenderParams.fails (params : RenderParams) : Bool := !params.skipRendering && !params.hasTarget

/-- What becomes of the frame that the call takes. -/
def RenderParams.fate (params : RenderParams) : Fate :=
  if params.skipRendering then .skipped else .drawn

/-- What the call hands to the renderer, if `d` is there to draw. -/
def RenderParams.draw (params : RenderParams) (d : Draw) : Option Draw :=
  if params.skipRendering then none else some d

/-- What the call waits for, if `waits` is `wait_present_count`. -/
def RenderParams.waits (params : RenderParams) (waits : Nat) : Option Nat :=
  if params.blockForTargetTime then some waits else none

/-- `struct mpv_render_context`. The last fields record what happened. -/
structure State where
  nextFrame : Option Frame := none
  presentCount : Nat := 0
  expectedFlipCount : Nat := 0
  redrawing : Bool := false
  flipCount : Nat := 0
  curFrame : Option Frame := none
  /-- `none` while it is zero. -/
  imgParams : Option Nat := none
  needReconfig : Bool := false
  vo : Place VoWait VoSpot := .at .gone
  renderer : Nat → Place Nat RenderSpot := fun _ => .at .idle
  /-- What the renderer was last configured for. -/
  configured : Option (Option Nat) := none
  /-- The thread that has taken the frame that was sent last. -/
  taker : Option Nat := none
  /-- How many frames were sent. -/
  sent : Nat := 0
  /-- What became of the frames that have left `next_frame`. -/
  fate : List Fate := []
  shown : List Shown := []
  /-- An assertion did not hold. -/
  failed : Bool := false

inductive Label where
  | preinit
  | reconfig (params : Nat)
  /-- `control` with `VOCTRL_RESET`. -/
  | reset
  | uninit
  | drawFrame (f : VoFrame)
  /-- The update callback returns. -/
  | updated
  | flipPage
  /-- The VO thread goes on after it was woken. -/
  | vo
  /-- The VO thread has waited for 0.2 s. If it signals, then the thread `wakes` is woken. -/
  | voTimeout (wakes : Option Nat)
  | wakeVo
  /-- The thread `n` calls `mpv_render_context_render`. -/
  | render (n : Nat) (params : RenderParams)
  /-- `renderer->fns->render` returns. -/
  | rendered (n : Nat)
  /-- The thread `n` goes on after it was woken. -/
  | renderer (n : Nat)
  | wakeRenderer (n : Nat)
  /-- `mpv_render_context_report_swap`. -/
  | reportSwap
  deriving DecidableEq, Repr

namespace State

/-- `pthread_cond_broadcast`. -/
def broadcast (s : State) : State :=
  { s with vo := s.vo.wake, renderer := fun n => (s.renderer n).wake }

def goto (s : State) (n : Nat) (p : Place Nat RenderSpot) : State :=
  { s with renderer := Function.update s.renderer n p }

/-! ## The VO thread -/

/-- `reconfig`, with `forget_frames`. -/
def reconfig (s : State) (params : Option Nat) (vo : VoSpot) : State :=
  { s with
    curFrame := none
    imgParams := params
    needReconfig := true
    vo := .at vo }.broadcast

/-- The region of `draw_frame`. -/
def drawFrame (s : State) (f : VoFrame) : State :=
  { s with
    nextFrame := some ⟨s.sent, f, s.imgParams⟩
    expectedFlipCount := s.flipCount + 1
    redrawing := f.isRedraw
    vo := .at .updating
    taker := none
    sent := s.sent + 1
    failed := s.failed || s.nextFrame.isSome }

/-- The second loop of `flip_page`. -/
def flipWait (s : State) : State :=
  if s.flipCount < s.expectedFlipCount ∧ s.flipCount ≠ 0 then { s with vo := .asleep .presented }
  else { s with vo := .at .idle }

/-- `flip_page` from its first loop on. -/
def flipPage (s : State) : State :=
  if s.nextFrame.isSome then { s with vo := .asleep .rendered }
  else
    let s := { s with presentCount := s.presentCount + 1 }.broadcast
    if s.redrawing then { s with vo := .at .idle } else s.flipWait

/-- The frame was not taken: what follows `done` in `flip_page`. -/
def dropFrame (s : State) (wakes : Option Nat) : State :=
  let s := { s with
    curFrame := s.nextFrame
    nextFrame := none
    presentCount := s.presentCount + 2
    vo := .at .idle
    fate := s.fate ++ [.dropped] }
  match wakes with
  | none => s
  | some n => s.goto n (s.renderer n).wake

/-- The VO thread goes on in `flip_page`. -/
def flip (s : State) : VoWait → State
  | .rendered => s.flipPage
  | .presented => s.flipWait

/-- `pthread_cond_timedwait` has returned an error. -/
def voTimeout (s : State) (wakes : Option Nat) : VoWait → State
  | .rendered => if s.nextFrame.isSome then s.dropFrame wakes else s.flipPage
  | .presented => { s with vo := .at .idle }

/-! ## Drawing threads -/

/-- The first region of `mpv_render_context_render`. Without a target the call returns there. -/
def render (s : State) (n : Nat) (params : RenderParams) : State :=
  if params.fails then s
  else
    let configured := if s.needReconfig then some s.imgParams else s.configured
    match s.nextFrame with
    | some f =>
      let waits := if f.frame.isRedraw then s.presentCount else s.presentCount + 1
      { s.broadcast with
        nextFrame := none
        curFrame := some f
        needReconfig := false
        configured := configured
        taker := some n
        fate := s.fate ++ [params.fate]
        }.goto n (.at (.rendering (params.draw ⟨some f, false⟩) (params.waits waits)))
    | none =>
      { s with
        needReconfig := false
        configured := configured
        }.goto n (.at (.rendering (params.draw ⟨s.curFrame, true⟩) (params.waits s.presentCount)))

/-- What `renderer->fns->render` draws, without `ctx->lock`. -/
def draw (s : State) : Option Draw → State
  | none => s
  | some d => { s with shown := s.shown ++ [{ d with configured := s.configured : Shown }] }

/-- The loop at the end of `mpv_render_context_render`. -/
def await (s : State) (n waits : Nat) : State :=
  s.goto n (if s.presentCount < waits then .asleep waits else .at .idle)

/-- `mpv_render_context_render` from its call of the renderer on. -/
def rendered (s : State) (n : Nat) (draw : Option Draw) : Option Nat → State
  | none => (s.draw draw).goto n (.at .idle)
  | some waits => (s.draw draw).await n waits

end State

def step (s : State) : Label → Option State
  | .preinit => if s.vo = .at .gone then some { s with vo := .at .fresh } else none
  | .reconfig params =>
    if s.vo = .at .fresh ∨ s.vo = .at .idle then some (s.reconfig (some params) .idle) else none
  | .reset => if s.vo = .at .fresh ∨ s.vo = .at .idle then some s.broadcast else none
  | .uninit =>
    if s.vo = .at .fresh ∨ s.vo = .at .idle then some (s.reconfig none .gone) else none
  | .drawFrame f => if s.vo = .at .idle then some (s.drawFrame f) else none
  | .updated => if s.vo = .at .updating then some { s with vo := .at .updated } else none
  | .flipPage => if s.vo = .at .updated then some s.flipPage else none
  | .vo =>
    match s.vo with
    | .woken c => some (s.flip c)
    | _ => none
  | .voTimeout wakes =>
    match s.vo with
    | .asleep c | .woken c => some (s.voTimeout wakes c)
    | .at _ => none
  | .wakeVo =>
    match s.vo with
    | .asleep _ => some { s with vo := s.vo.wake }
    | _ => none
  | .render n params => if s.renderer n = .at .idle then some (s.render n params) else none
  | .rendered n =>
    match s.renderer n with
    | .at (.rendering draw waits) => some (s.rendered n draw waits)
    | _ => none
  | .renderer n =>
    match s.renderer n with
    | .woken waits => some (s.await n waits)
    | _ => none
  | .wakeRenderer n =>
    match s.renderer n with
    | .asleep _ => some (s.goto n (s.renderer n).wake)
    | _ => none
  | .reportSwap => some { s with flipCount := s.flipCount + 1 }.broadcast

/-- A context from `mpv_render_context_create` on. -/
def context : Machine State Label where
  init s := s = {}
  step := step

end FrameHandover
