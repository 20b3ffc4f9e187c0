-- SUMMARY: That every run of the render context is a run of the atomic functions that the models of the view build on.
import KitPlayerCore.Mpv.FrameOrder

/-!
# The render context as atomic functions

The models of the view know the render context as three functions: a frame is sent, a draw takes
it, and `flip_page` counts it. A draw returns once the count that it has to wait for is reached.
The condition variable, its wakeups and the number of the drawing threads do not show there.
-/

namespace FrameHandover

open Mpv Transition

variable {s s' : State} {n : Nat} {cb : Bool}

/-- The context as the models of the view have it. -/
structure Regions where
  ctx : RenderContext
  /-- What each thread waits for in its draw, if it is in one. Not every draw is to block. -/
  draws : Nat → Option (Option Nat) := fun _ => none

/-- Which of its functions is called. -/
inductive Region where
  | drawFrame (f : VoFrame)
  /-- A draw of the thread `n` begins. -/
  | takeFrame (n : Nat) (block : Bool)
  | flipPage (timeout : Bool)
  /-- A draw of the thread `n` returns. -/
  | returns (n : Nat)
  deriving DecidableEq, Repr

/-- The context under these functions alone. A frame is sent only when none is left. -/
def regions : Machine Regions Region where
  init r := ∃ updateCb, r = { ctx := { updateCb := updateCb } }
  step r
    | .drawFrame f =>
      if r.ctx.nextFrame = none then some { r with ctx := r.ctx.drawFrame f } else none
    | .takeFrame n block =>
      if r.draws n = none then
        let waits := if block then some r.ctx.takeFrame.2 else none
        some { ctx := r.ctx.takeFrame.1, draws := Function.update r.draws n (some waits) }
      else none
    | .flipPage timeout => (r.ctx.flipPage timeout).map fun ctx => { r with ctx := ctx }
    | .returns n =>
      match r.draws n with
      | some waits =>
        if ∀ count ∈ waits, count ≤ r.ctx.presentCount then
          some { r with draws := Function.update r.draws n none }
        else none
      | none => none

/-- What a thread waits for in its draw, if it is in one. -/
def drawOf : Place Nat RenderSpot → Option (Option Nat)
  | .at .idle => none
  | p => some (waitsOf p)

@[simp] theorem drawOf_wake (p : Place Nat RenderSpot) : drawOf p.wake = drawOf p := by
  obtain (_ | ⟨_, _⟩) | _ | _ := p <;> rfl

namespace State

/-- What the models of the view see of the context. Whether a callback is set plays no part here. -/
def regions (updateCb : Bool) (s : State) : Regions where
  ctx := {
    updateCb := updateCb
    nextFrame := s.nextFrame.map Frame.frame
    presentCount := s.presentCount }
  draws n := drawOf (s.renderer n)

/-- `flip_page` counts the frame, unless it is to be waited for. -/
def flips (s : State) : Option Region :=
  if s.nextFrame.isSome then none else some (.flipPage false)

/-- A draw returns, unless it is to wait. -/
def ends (s : State) (n : Nat) : Option Region :=
  if ∀ count ∈ waitsOf (s.renderer n), count ≤ s.presentCount then some (.returns n) else none

/-- Which of the functions a step amounts to, if any. -/
def call (s : State) : Label → Option Region
  | .drawFrame f => some (.drawFrame f)
  | .flipPage => s.flips
  | .vo => if s.vo = .woken .rendered then s.flips else none
  | .voTimeout _ =>
    if s.vo.waitsFor = some .rendered then some (.flipPage s.nextFrame.isSome) else none
  | .render n params => if params.fails then none else some (.takeFrame n params.blockForTargetTime)
  | .rendered n => s.ends n
  | .renderer n => s.ends n
  | _ => none

end State

/-- A step that neither the frame, the count nor a draw shows. -/
theorem regions_congr (hnext : s'.nextFrame = s.nextFrame)
    (hcount : s'.presentCount = s.presentCount)
    (hdraws : ∀ n, drawOf (s'.renderer n) = drawOf (s.renderer n)) :
    s'.regions cb = s.regions cb := by
  unfold State.regions
  rw [hnext, hcount, funext hdraws]

/-- Where the frame was not taken, `flip_page` waits, and else it counts it. -/
theorem flips_spec (cb : Bool) (s : State) :
    (s.flips = none ∧ s.flipPage.regions cb = s.regions cb) ∨
      (s.flips = some (.flipPage false) ∧
        regions.step (s.regions cb) (.flipPage false) = some (s.flipPage.regions cb)) := by
  cases hnext : s.nextFrame with
  | none =>
    obtain ⟨vo, -, heq⟩ := flipPage_of_none hnext
    refine .inr ⟨by simp [State.flips, hnext], ?_⟩
    rw [heq]
    simp [regions, State.regions, RenderContext.flipPage, hnext]
  | some f =>
    have heq : s.flipPage = { s with vo := .asleep .rendered } :=
      if_pos (Option.isSome_iff_exists.mpr ⟨f, hnext⟩)
    refine .inl ⟨by simp [State.flips, hnext], ?_⟩
    rw [heq]
    exact regions_congr rfl rfl fun _ => rfl

theorem flipPage_follows {l : Label} (hcall : s.call l = s.flips) :
    regions.Follows (State.regions cb) State.call s l s.flipPage := by
  obtain ⟨hnone, heq⟩ | ⟨hsome, hstep⟩ := flips_spec cb s
  · exact .of_none (hcall.trans hnone) heq
  · exact .of_some (hcall.trans hsome) hstep

theorem regions_flipWait (s : State) : s.flipWait.regions cb = s.regions cb := by
  unfold State.flipWait
  split <;> exact regions_congr rfl rfl fun _ => rfl

/-- What a draw that begins makes of the context. -/
theorem takeFrame_step {r r' : Regions} {block : Bool} (hfree : r.draws n = none)
    (hctx : r'.ctx = r.ctx.takeFrame.1)
    (hdraws : r'.draws =
      Function.update r.draws n (some (if block then some r.ctx.takeFrame.2 else none))) :
    regions.step r (.takeFrame n block) = some r' := by
  obtain ⟨ctx, draws⟩ := r'
  obtain rfl : ctx = _ := hctx
  obtain rfl : draws = _ := hdraws
  exact if_pos hfree

/-- What a draw that returns makes of it. -/
theorem returns_step {r r' : Regions} {waits : Option Nat} (hdraw : r.draws n = some waits)
    (hends : ∀ count ∈ waits, count ≤ r.ctx.presentCount) (hctx : r'.ctx = r.ctx)
    (hdraws : r'.draws = Function.update r.draws n none) :
    regions.step r (.returns n) = some r' := by
  obtain ⟨ctx, draws⟩ := r'
  obtain rfl : ctx = _ := hctx
  obtain rfl : draws = _ := hdraws
  simp only [regions, hdraw]
  exact if_pos hends

/-- Only the thread that moves is in another draw than before. -/
theorem drawOf_update (cb : Bool) {renderer : Nat → Place Nat RenderSpot}
    (hsame : ∀ m, drawOf (renderer m) = drawOf (s.renderer m)) {p : Place Nat RenderSpot}
    {draw : Option (Option Nat)} (hp : drawOf p = draw) :
    (fun m => drawOf (Function.update renderer n p m)) =
      Function.update (s.regions cb).draws n draw := by
  funext m
  by_cases hm : m = n
  · subst hm
    simp [hp]
  · simp [hm, State.regions, hsame]

/-- A draw takes what `takeFrame` takes, and waits as long as it says. -/
theorem render_follows (hidle : s.renderer n = .at .idle) (params : RenderParams) :
    regions.Follows (State.regions cb) State.call s (.render n params) (s.render n params) := by
  cases hfails : params.fails with
  | true =>
    refine .of_none (by simp [State.call, hfails]) ?_
    rw [State.render, if_pos hfails]
  | false =>
    refine .of_some (k := .takeFrame n params.blockForTargetTime) (by simp [State.call, hfails]) ?_
    have hfree : (s.regions cb).draws n = none := by simp [State.regions, hidle, drawOf]
    cases hnext : s.nextFrame with
    | some f =>
      rw [render_of_some hnext hfails]
      refine takeFrame_step hfree ?_ (drawOf_update _ (fun _ => drawOf_wake _) ?_)
      · simp [State.regions, State.goto, State.broadcast, RenderContext.takeFrame, hnext]
      · simp [drawOf, waitsOf, RenderParams.waits, State.regions, RenderContext.takeFrame, hnext]
    | none =>
      rw [render_of_none hnext hfails]
      refine takeFrame_step hfree ?_ (drawOf_update _ (fun _ => rfl) ?_)
      · simp [State.regions, State.goto, RenderContext.takeFrame, hnext]
      · simp [drawOf, waitsOf, RenderParams.waits, State.regions, RenderContext.takeFrame, hnext]

/-- Whoever is in a draw returns from it, unless there is something to wait for. -/
theorem ends_follows {l : Label} (hcall : s.call l = s.ends n) {waits : Option Nat}
    (hdraw : drawOf (s.renderer n) = some waits) {p : Place Nat RenderSpot}
    (hreturns : (∀ count ∈ waits, count ≤ s.presentCount) → p = .at .idle)
    (hwaits : (¬ ∀ count ∈ waits, count ≤ s.presentCount) → drawOf p = some waits)
    (hnext : s'.nextFrame = s.nextFrame) (hcount : s'.presentCount = s.presentCount)
    (hrenderer : s'.renderer = Function.update s.renderer n p) :
    regions.Follows (State.regions cb) State.call s l s' := by
  have hwaitsOf : waitsOf (s.renderer n) = waits := by
    unfold drawOf at hdraw
    split at hdraw <;> simp_all
  by_cases hends : ∀ count ∈ waits, count ≤ s.presentCount
  · have hp := hreturns hends
    subst hp
    refine .of_some (k := .returns n) ?_ ?_
    · rw [hcall, State.ends, hwaitsOf, if_pos hends]
    · refine returns_step (r := s.regions cb) hdraw hends ?_ ?_
      · simp only [State.regions, hnext, hcount]
      · simp only [State.regions, hrenderer]
        exact drawOf_update (s := s) cb (fun _ => rfl) rfl
  · refine .of_none ?_ (regions_congr hnext hcount fun m => ?_)
    · rw [hcall, State.ends, hwaitsOf, if_neg hends]
    · rw [hrenderer]
      by_cases hm : m = n
      · subst hm
        rw [Function.update_self, hwaits hends, hdraw]
      · rw [Function.update_of_ne hm]

theorem await_follows {l : Label} (hcall : s.call l = s.ends n) {u : State} {waits : Nat}
    (hdraw : drawOf (s.renderer n) = some (some waits)) (hnext : u.nextFrame = s.nextFrame)
    (hcount : u.presentCount = s.presentCount) (hrenderer : u.renderer = s.renderer) :
    regions.Follows (State.regions cb) State.call s l (u.await n waits) := by
  refine ends_follows hcall hdraw (fun hle => if_neg ?_) (fun hlt => ?_) hnext hcount
    (congrArg (Function.update · n _) hrenderer)
  · rw [hcount]
    exact Nat.not_lt.mpr (hle waits rfl)
  · have hlt : s.presentCount < waits := by simpa using hlt
    rw [hcount, if_pos hlt]
    rfl

/-- The VO thread has waited for long enough. -/
theorem voTimeout_follows {wakes : Option Nat} {c : VoWait} (hc : s.vo.waitsFor = some c) :
    regions.Follows (State.regions cb) State.call s (.voTimeout wakes) (s.voTimeout wakes c) := by
  cases c with
  | rendered =>
    refine .of_some (k := .flipPage s.nextFrame.isSome) (by simp [State.call, hc]) ?_
    cases hnext : s.nextFrame with
    | none =>
      obtain ⟨hnone, -⟩ | ⟨-, hstep⟩ := flips_spec cb s
      · simp [State.flips, hnext] at hnone
      · rw [State.voTimeout, hnext]
        exact hstep
    | some f =>
      obtain ⟨renderer, hrenderer, heq⟩ := dropFrame_eq s wakes
      have hdraws : (fun m => drawOf (renderer m)) = (s.regions cb).draws := by
        funext m
        obtain h | h := hrenderer m
        · rw [h]
          rfl
        · rw [h, drawOf_wake]
          rfl
      rw [State.voTimeout, hnext, if_pos Option.isSome_some, heq]
      simp [regions, State.regions, RenderContext.flipPage, hnext, hdraws]
  | presented =>
    refine .of_none (by simp [State.call, hc]) (regions_congr rfl rfl fun _ => rfl)

theorem follows_of_step {l : Label} (hwaits : Waits s) (hs : FrameHandover.step s l = some s') :
    regions.Follows (State.regions cb) State.call s l s' := by
  cases l with
  | preinit | reset | updated =>
    simp only [FrameHandover.step, Option.ite_none_right_eq_some, Option.some.injEq] at hs
    obtain ⟨-, rfl⟩ := hs
    exact .of_none rfl (regions_congr rfl rfl fun _ => by simp [State.broadcast])
  | reconfig | uninit =>
    simp only [FrameHandover.step, Option.ite_none_right_eq_some, Option.some.injEq] at hs
    obtain ⟨-, rfl⟩ := hs
    exact .of_none rfl (regions_congr rfl rfl fun _ => drawOf_wake _)
  | drawFrame f =>
    simp only [FrameHandover.step, Option.ite_none_right_eq_some, Option.some.injEq] at hs
    obtain ⟨hvo, rfl⟩ := hs
    have hnone := hwaits.nextFrame_eq_none (not_out_of_at hvo (by rintro ⟨⟩) (by rintro ⟨⟩))
    refine .of_some (k := .drawFrame f) rfl ?_
    simp [regions, State.regions, State.drawFrame, RenderContext.drawFrame, hnone]
  | flipPage =>
    simp only [FrameHandover.step, Option.ite_none_right_eq_some, Option.some.injEq] at hs
    obtain ⟨-, rfl⟩ := hs
    exact flipPage_follows rfl
  | vo =>
    simp only [FrameHandover.step] at hs
    split at hs <;> cases hs
    rename_i c hwoken
    cases c with
    | rendered => exact flipPage_follows (if_pos hwoken)
    | presented => exact .of_none (by simp [State.call, hwoken]) (regions_flipWait s)
  | voTimeout wakes =>
    simp only [FrameHandover.step] at hs
    split at hs
    · rename_i c hasleep
      cases hs
      exact voTimeout_follows (by rw [hasleep]; rfl)
    · rename_i c hwoken
      cases hs
      exact voTimeout_follows (by rw [hwoken]; rfl)
    · cases hs
  | wakeVo =>
    simp only [FrameHandover.step] at hs
    split at hs <;> cases hs
    exact .of_none rfl (regions_congr rfl rfl fun _ => rfl)
  | render n params =>
    simp only [FrameHandover.step, Option.ite_none_right_eq_some, Option.some.injEq] at hs
    obtain ⟨hidle, rfl⟩ := hs
    exact render_follows hidle params
  | rendered n =>
    simp only [FrameHandover.step] at hs
    split at hs <;> cases hs
    rename_i draw waits hrendering
    have hdraw : drawOf (s.renderer n) = some waits := by rw [hrendering]; rfl
    have hnext : (s.draw draw).nextFrame = s.nextFrame := by cases draw <;> rfl
    have hcount : (s.draw draw).presentCount = s.presentCount := by cases draw <;> rfl
    cases waits with
    | none =>
      refine ends_follows rfl hdraw (fun _ => rfl) (fun habs => absurd (by simp) habs) hnext hcount ?_
      exact congrArg (Function.update · n _) (renderer_draw s draw)
    | some waits => exact await_follows rfl hdraw hnext hcount (renderer_draw s draw)
  | renderer n =>
    simp only [FrameHandover.step] at hs
    split at hs <;> cases hs
    rename_i waits hwoken
    exact await_follows rfl (by rw [hwoken]; rfl) rfl rfl rfl
  | wakeRenderer n =>
    simp only [FrameHandover.step] at hs
    split at hs <;> cases hs
    refine .of_none rfl (regions_congr rfl rfl fun m => ?_)
    by_cases hm : m = n
    · subst hm
      simp [State.goto]
    · simp [State.goto, hm]
  | reportSwap =>
    cases hs
    exact .of_none rfl (regions_congr rfl rfl fun _ => drawOf_wake _)

/-- However many threads draw and wait, a run of the context is a run of the functions that the
    models of the view build on: called as the run calls them, they take the same frames, count the
    same, and let each draw return after the same count. -/
theorem regions_of_exec {ls : List Label} (cb : Bool) (h : context.exec {} ls = some s) :
    regions.exec { ctx := { updateCb := cb } } (context.calls State.call {} ls) =
      some (s.regions cb) := by
  refine Machine.exec_calls context.Reachable (State.regions cb)
    (fun s s' l hs hstep => ?_) (.init rfl) h
  exact ⟨hs.step trivial hstep, follows_of_step (waits_of_reachable hs) hstep⟩

/-- The second frame is given up after a draw of the first has returned. -/
theorem regions_after_drop : ∃ s : State, s.renderer 0 = .at .idle ∧ s.presentCount = 3 ∧
    regions.exec { ctx := { updateCb := true } }
      [.drawFrame ⟨false, true⟩, .takeFrame 0 true, .flipPage false, .returns 0,
        .drawFrame ⟨false, true⟩, .flipPage true] = some (s.regions true) := by
  have hcalls : context.calls State.call {}
      [.preinit, .reconfig 7, .drawFrame ⟨false, true⟩, .render 0 {}, .rendered 0, .updated,
        .flipPage, .renderer 0, .drawFrame ⟨false, true⟩, .updated, .flipPage, .voTimeout none] =
      [.drawFrame ⟨false, true⟩, .takeFrame 0 true, .flipPage false, .returns 0,
        .drawFrame ⟨false, true⟩, .flipPage true] := by decide +kernel
  obtain ⟨s, hs, htest⟩ := (Option.any_eq_true _ _).mp (by decide +kernel :
    (context.exec {} [.preinit, .reconfig 7, .drawFrame ⟨false, true⟩, .render 0 {}, .rendered 0,
      .updated, .flipPage, .renderer 0, .drawFrame ⟨false, true⟩, .updated, .flipPage,
      .voTimeout none]).any
      (fun s => decide (s.renderer 0 = .at .idle ∧ s.presentCount = 3)) = true)
  obtain ⟨hidle, hcount⟩ := of_decide_eq_true htest
  exact ⟨s, hidle, hcount, hcalls ▸ regions_of_exec true hs⟩

end FrameHandover
