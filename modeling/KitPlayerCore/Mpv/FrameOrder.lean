-- SUMMARY: That frames are drawn in order, each with the parameters that the renderer was configured for, and that the context refines the one that the models of the view build on.
import Mathlib.Data.List.Basic
import KitPlayerCore.Mpv.FrameWaits

/-!
# The order of the frames

A frame leaves `next_frame` once: a drawing thread takes it, or `flip_page` gives it up. Until the
next one does, it is `cur_frame`, which is what a draw without a new frame shows again.

The renderer is used without `ctx->lock`. The user has to make sure that no two threads do so at a
time, and what the renderer draws depends on it.
-/

namespace FrameHandover

open Mpv Transition

variable {s s' : State} {n : Nat}

/-! ## What a step does to the frames -/

/-- No VO has set its parameters so far. -/
def State.Unset (s : State) : Prop := s.vo = .at .gone ∨ s.vo = .at .fresh

/-- The thread `n` is behind its first region, and has `d` drawn unless it skips that. -/
def State.Rendering (s : State) (n : Nat) (d : Option Draw) : Prop :=
  ∃ waits, s.renderer n = .at (.rendering d waits)

theorem rendering_of_wake {n : Nat} {d : Option Draw}
    (h : s'.renderer n = s.renderer n ∨ s'.renderer n = (s.renderer n).wake) :
    s'.Rendering n d ↔ s.Rendering n d := by
  refine exists_congr fun waits => ?_
  obtain h | h := h
  · rw [h]
  · rw [h, Place.wake_eq_at]

/-- The thread that moves is not in the renderer, before or after. -/
theorem rendering_goto {p : Place Nat RenderSpot} (hbefore : ∀ d, ¬ s.Rendering n d)
    (hafter : ∀ d waits, p ≠ .at (.rendering d waits)) (m : Nat) (d : Option Draw) :
    (s.goto n p).Rendering m d ↔ s.Rendering m d := by
  by_cases hm : m = n
  · subst hm
    refine iff_of_false (fun habs => ?_) (hbefore d)
    obtain ⟨waits, hp⟩ := habs
    exact hafter d waits (by simpa [State.goto] using hp)
  · simp [State.Rendering, State.goto, hm]

/-- A step that leaves the frames and the renderer alone. -/
structure Same (s s' : State) : Prop where
  nextFrame : s'.nextFrame = s.nextFrame
  curFrame : s'.curFrame = s.curFrame
  imgParams : s'.imgParams = s.imgParams
  needReconfig : s'.needReconfig = s.needReconfig
  configured : s'.configured = s.configured
  sent : s'.sent = s.sent
  fate : s'.fate = s.fate
  shown : s'.shown = s.shown
  unset : s.Unset → s'.Unset
  rendering : ∀ n d, s'.Rendering n d ↔ s.Rendering n d

theorem Same.broadcast (h : Same s s') : Same s s'.broadcast := by
  refine ⟨h.nextFrame, h.curFrame, h.imgParams, h.needReconfig, h.configured, h.sent, h.fate,
    h.shown, fun hunset => ?_, fun n d => ?_⟩
  · obtain hvo | hvo := h.unset hunset
    · exact .inl (by rw [State.broadcast, hvo]; rfl)
    · exact .inr (by rw [State.broadcast, hvo]; rfl)
  · exact (rendering_of_wake (.inr rfl)).trans (h.rendering n d)

theorem Same.flipWait (h : Same s s') (hunset : ¬ s.Unset) : Same s s'.flipWait := by
  unfold State.flipWait
  split <;> exact ⟨h.nextFrame, h.curFrame, h.imgParams, h.needReconfig, h.configured, h.sent,
    h.fate, h.shown, fun h => absurd h hunset, h.rendering⟩

theorem Same.flipPage (hunset : ¬ s.Unset) : Same s s.flipPage := by
  have hcounted : Same s { s with presentCount := s.presentCount + 1 }.broadcast :=
    .broadcast ⟨rfl, rfl, rfl, rfl, rfl, rfl, rfl, rfl, id, fun _ _ => .rfl⟩
  unfold State.flipPage
  split
  · exact ⟨rfl, rfl, rfl, rfl, rfl, rfl, rfl, rfl, fun h => absurd h hunset, fun _ _ => .rfl⟩
  · dsimp only
    split
    · exact ⟨rfl, rfl, rfl, rfl, rfl, rfl, rfl, rfl, fun h => absurd h hunset, hcounted.rendering⟩
    · exact hcounted.flipWait hunset

/-- What a step may do to the frames and to the renderer. -/
theorem step_cases {l : Label} (hs : FrameHandover.step s l = some s') :
    Same s s' ∨
      (∃ params vo, ¬ s.Out ∧ s' = s.reconfig params vo) ∨
      (∃ f, s.vo = .at .idle ∧ s' = s.drawFrame f) ∨
      (∃ f wakes, s.nextFrame = some f ∧ ¬ s.Unset ∧ s' = s.dropFrame wakes) ∨
      (∃ n params, l = .render n params ∧ params.fails = false ∧ s' = s.render n params) ∨
      ∃ n draw waits, s.renderer n = .at (.rendering draw waits) ∧
        s' = s.rendered n draw waits := by
  -- the VO thread waits, or is to flip the frame
  have hbusy {p : Place VoWait VoSpot} (hvo : s.vo = p) (hgone : p ≠ .at .gone)
      (hfresh : p ≠ .at .fresh) : ¬ s.Unset := by
    rintro (hunset | hunset)
    · exact hgone (hvo.symm.trans hunset)
    · exact hfresh (hvo.symm.trans hunset)
  have hsame : Same s s := ⟨rfl, rfl, rfl, rfl, rfl, rfl, rfl, rfl, id, fun _ _ => .rfl⟩
  have hset (vo : Place VoWait VoSpot) (hunset : ¬ s.Unset) : Same s { s with vo := vo } :=
    ⟨rfl, rfl, rfl, rfl, rfl, rfl, rfl, rfl, fun h => absurd h hunset, fun _ _ => .rfl⟩
  have hgoto {n : Nat} {p : Place Nat RenderSpot} (hbefore : ∀ r, s.renderer n ≠ .at r)
      (hafter : ∀ d waits, p ≠ .at (.rendering d waits)) : Same s (s.goto n p) := by
    refine ⟨rfl, rfl, rfl, rfl, rfl, rfl, rfl, rfl, id, rendering_goto ?_ hafter⟩
    rintro d ⟨waits, hp⟩
    exact hbefore _ hp
  have hawait {n waits : Nat} (hwoken : s.renderer n = .woken waits) : Same s (s.await n waits) := by
    refine hgoto (by rw [hwoken]; rintro r ⟨⟩) fun d waits' => ?_
    split <;> rintro ⟨⟩
  have hout (hvo : s.vo = .at .fresh ∨ s.vo = .at .idle) : ¬ s.Out := by
    obtain hvo | hvo := hvo
    · exact not_out_of_at hvo (by rintro ⟨⟩) (by rintro ⟨⟩)
    · exact not_out_of_at hvo (by rintro ⟨⟩) (by rintro ⟨⟩)
  cases l with
  | preinit =>
    simp only [FrameHandover.step, Option.ite_none_right_eq_some, Option.some.injEq] at hs
    obtain ⟨-, rfl⟩ := hs
    exact .inl ⟨rfl, rfl, rfl, rfl, rfl, rfl, rfl, rfl, fun _ => .inr rfl, fun _ _ => .rfl⟩
  | reconfig params =>
    simp only [FrameHandover.step, Option.ite_none_right_eq_some, Option.some.injEq] at hs
    obtain ⟨hvo, rfl⟩ := hs
    exact .inr (.inl ⟨_, _, hout hvo, rfl⟩)
  | reset =>
    simp only [FrameHandover.step, Option.ite_none_right_eq_some, Option.some.injEq] at hs
    obtain ⟨-, rfl⟩ := hs
    exact .inl hsame.broadcast
  | uninit =>
    simp only [FrameHandover.step, Option.ite_none_right_eq_some, Option.some.injEq] at hs
    obtain ⟨hvo, rfl⟩ := hs
    exact .inr (.inl ⟨_, _, hout hvo, rfl⟩)
  | drawFrame f =>
    simp only [FrameHandover.step, Option.ite_none_right_eq_some, Option.some.injEq] at hs
    obtain ⟨hvo, rfl⟩ := hs
    exact .inr (.inr (.inl ⟨f, hvo, rfl⟩))
  | updated =>
    simp only [FrameHandover.step, Option.ite_none_right_eq_some, Option.some.injEq] at hs
    obtain ⟨hvo, rfl⟩ := hs
    exact .inl (hset _ (hbusy hvo (by rintro ⟨⟩) (by rintro ⟨⟩)))
  | flipPage =>
    simp only [FrameHandover.step, Option.ite_none_right_eq_some, Option.some.injEq] at hs
    obtain ⟨hvo, rfl⟩ := hs
    exact .inl (.flipPage (hbusy hvo (by rintro ⟨⟩) (by rintro ⟨⟩)))
  | vo =>
    simp only [FrameHandover.step] at hs
    split at hs
    · rename_i c hwoken
      cases hs
      have hunset := hbusy hwoken (by rintro ⟨⟩) (by rintro ⟨⟩)
      cases c with
      | rendered => exact .inl (.flipPage hunset)
      | presented => exact .inl (hsame.flipWait hunset)
    · cases hs
  | voTimeout wakes =>
    have htimeout {c : VoWait} (hunset : ¬ s.Unset) (hs : s' = s.voTimeout wakes c) :
        Same s s' ∨ ∃ f, s.nextFrame = some f ∧ s' = s.dropFrame wakes := by
      cases c with
      | rendered =>
        cases hnext : s.nextFrame with
        | none =>
          rw [State.voTimeout, hnext] at hs
          exact .inl (hs ▸ .flipPage hunset)
        | some f =>
          rw [State.voTimeout, hnext] at hs
          exact .inr ⟨f, rfl, hs⟩
      | presented => exact .inl (hs ▸ hset _ hunset)
    simp only [FrameHandover.step] at hs
    split at hs
    · rename_i c hasleep
      have hunset := hbusy hasleep (by rintro ⟨⟩) (by rintro ⟨⟩)
      obtain hsame | ⟨f, hnext, heq⟩ := htimeout hunset (Option.some.inj hs).symm
      · exact .inl hsame
      · exact .inr (.inr (.inr (.inl ⟨f, wakes, hnext, hunset, heq⟩)))
    · rename_i c hwoken
      have hunset := hbusy hwoken (by rintro ⟨⟩) (by rintro ⟨⟩)
      obtain hsame | ⟨f, hnext, heq⟩ := htimeout hunset (Option.some.inj hs).symm
      · exact .inl hsame
      · exact .inr (.inr (.inr (.inl ⟨f, wakes, hnext, hunset, heq⟩)))
    · cases hs
  | wakeVo =>
    simp only [FrameHandover.step] at hs
    split at hs
    · rename_i c hasleep
      cases hs
      exact .inl (hset _ (hbusy hasleep (by rintro ⟨⟩) (by rintro ⟨⟩)))
    · cases hs
  | render n params =>
    simp only [FrameHandover.step, Option.ite_none_right_eq_some, Option.some.injEq] at hs
    obtain ⟨-, rfl⟩ := hs
    cases hfails : params.fails with
    | true =>
      rw [State.render, if_pos hfails]
      exact .inl hsame
    | false => exact .inr (.inr (.inr (.inr (.inl ⟨n, params, rfl, hfails, rfl⟩))))
  | rendered n =>
    simp only [FrameHandover.step] at hs
    split at hs
    · rename_i draw waits hrendering
      cases hs
      exact .inr (.inr (.inr (.inr (.inr ⟨n, draw, waits, hrendering, rfl⟩))))
    · cases hs
  | renderer n =>
    simp only [FrameHandover.step] at hs
    split at hs <;> cases hs
    rename_i waits hwoken
    exact .inl (hawait hwoken)
  | wakeRenderer n =>
    simp only [FrameHandover.step] at hs
    split at hs <;> cases hs
    rename_i waits hasleep
    refine .inl (hgoto (by rw [hasleep]; rintro r ⟨⟩) ?_)
    rw [hasleep]
    rintro d waits' ⟨⟩
  | reportSwap =>
    cases hs
    exact .inl (.broadcast ⟨rfl, rfl, rfl, rfl, rfl, rfl, rfl, rfl, id, fun _ _ => .rfl⟩)

/-- What a draw does that finds a new frame. -/
theorem render_of_some {f : Frame} {params : RenderParams} (hnext : s.nextFrame = some f)
    (hfails : params.fails = false) (n : Nat) :
    s.render n params = { s.broadcast with
      nextFrame := none
      curFrame := some f
      needReconfig := false
      configured := if s.needReconfig then some s.imgParams else s.configured
      taker := some n
      fate := s.fate ++ [params.fate]
      }.goto n (.at (.rendering (params.draw ⟨some f, false⟩)
        (params.waits (if f.frame.isRedraw then s.presentCount else s.presentCount + 1)))) := by
  simp only [State.render, hfails, Bool.false_eq_true, if_false, hnext]

/-- What a draw does that finds none. -/
theorem render_of_none {params : RenderParams} (hnext : s.nextFrame = none)
    (hfails : params.fails = false) (n : Nat) :
    s.render n params = { s with
      needReconfig := false
      configured := if s.needReconfig then some s.imgParams else s.configured
      }.goto n (.at (.rendering (params.draw ⟨s.curFrame, true⟩)
        (params.waits s.presentCount))) := by
  simp only [State.render, hfails, Bool.false_eq_true, if_false, hnext]

/-- The renderer has drawn, and the thread has left it. -/
theorem rendered_eq (s : State) (n : Nat) (draw : Option Draw) (waits : Option Nat) :
    ∃ p, (∀ d waits', (p : Place Nat RenderSpot) ≠ .at (.rendering d waits')) ∧
      s.rendered n draw waits = (s.draw draw).goto n p := by
  cases waits with
  | none => exact ⟨_, by rintro d waits' ⟨⟩, rfl⟩
  | some waits =>
    refine ⟨_, fun d waits' => ?_, rfl⟩
    split <;> rintro ⟨⟩

/-- What is left of a frame that was given up. -/
theorem dropFrame_eq (s : State) (wakes : Option Nat) :
    ∃ renderer, (∀ n, renderer n = s.renderer n ∨ renderer n = (s.renderer n).wake) ∧
      s.dropFrame wakes = { s with
        curFrame := s.nextFrame
        nextFrame := none
        presentCount := s.presentCount + 2
        vo := .at .idle
        renderer := renderer
        fate := s.fate ++ [.dropped] } := by
  unfold State.dropFrame
  cases wakes with
  | none => exact ⟨s.renderer, fun _ => .inl rfl, rfl⟩
  | some n =>
    refine ⟨Function.update s.renderer n (s.renderer n).wake, fun m => ?_, rfl⟩
    by_cases hm : m = n
    · subst hm
      exact .inr (Function.update_self _ _ _)
    · exact .inl (Function.update_of_ne hm _ _)

/-! ## Who draws -/

/-- What the user has to see to: no draw begins while another one is in the renderer. -/
def Synchronized (s : State) : Label → Prop
  | .render _ _ => ∀ m d, ¬ s.Rendering m d
  | _ => True

/-- What is being drawn, if anything is. -/
def State.Draws (s : State) : Option Draw → Prop
  | none => ∀ n d, ¬ s.Rendering n (some d)
  | some d => ∃ n, s.Rendering n (some d)

theorem draws_congr {d : Option Draw} (h : ∀ n d, s'.Rendering n d ↔ s.Rendering n d) :
    s'.Draws d ↔ s.Draws d := by
  cases d with
  | none => exact forall_congr' fun n => forall_congr' fun d => not_congr (h n (some d))
  | some d => exact exists_congr fun n => h n (some d)

/-- A draw begins while nobody is in the renderer. -/
theorem rendering_begin (h : ∀ m d, ¬ s.Rendering m d) {draw : Option Draw} {waits : Option Nat}
    (m : Nat) (d : Option Draw) :
    (s.goto n (.at (.rendering draw waits))).Rendering m d ↔ m = n ∧ d = draw := by
  by_cases hm : m = n
  · subst hm
    simp [State.Rendering, State.goto, eq_comm]
  · have hother := h m d
    simpa [State.Rendering, State.goto, hm] using hother

theorem draws_begin (h : ∀ m d, ¬ s.Rendering m d) {draw : Option Draw} {waits : Option Nat}
    (d : Option Draw) : (s.goto n (.at (.rendering draw waits))).Draws d ↔ d = draw := by
  cases d with
  | none =>
    simp only [State.Draws, rendering_begin h, not_and]
    refine ⟨fun hall => ?_, ?_⟩
    · cases draw with
      | none => rfl
      | some d => exact absurd rfl (hall n d rfl)
    · rintro rfl n d - ⟨⟩
  | some d => simp [State.Draws, rendering_begin h]

/-- No two threads are in the renderer. -/
def State.Alone (s : State) : Prop := ∀ m n d e, s.Rendering m d → s.Rendering n e → m = n

theorem Alone.of_iff (h : s.Alone) (hs : ∀ n d, s'.Rendering n d ↔ s.Rendering n d) : s'.Alone :=
  fun m n d e hm hn => h m n d e ((hs m d).mp hm) ((hs n e).mp hn)

/-- The thread leaves the renderer, and then nobody is there. -/
theorem rendering_end (h : s.Alone) {draw : Option Draw} {waits : Option Nat}
    (hn : s.renderer n = .at (.rendering draw waits)) (m : Nat) (d : Option Draw) :
    ¬ (s.rendered n draw waits).Rendering m d := by
  obtain ⟨p, hp, heq⟩ := rendered_eq s n draw waits
  rw [heq]
  rintro ⟨waits', hm⟩
  by_cases hmn : m = n
  · subst hmn
    exact hp d waits' (by simpa [State.goto] using hm)
  · refine hmn (h m n d draw ⟨waits', ?_⟩ ⟨waits, hn⟩)
    simpa [State.goto, hmn] using hm

theorem rendering_reconfig (s : State) (params : Option Nat) (vo : VoSpot) (n : Nat)
    (d : Option Draw) : (s.reconfig params vo).Rendering n d ↔ s.Rendering n d :=
  rendering_of_wake (.inr rfl)

theorem rendering_dropFrame (s : State) (wakes : Option Nat) (n : Nat) (d : Option Draw) :
    (s.dropFrame wakes).Rendering n d ↔ s.Rendering n d := by
  obtain ⟨renderer, hrenderer, heq⟩ := dropFrame_eq s wakes
  rw [heq]
  exact rendering_of_wake (hrenderer n)

theorem rendering_broadcast (s : State) (n : Nat) (d : Option Draw) :
    s.broadcast.Rendering n d ↔ s.Rendering n d :=
  rendering_of_wake (.inr rfl)

/-- Who has begun to draw is alone. -/
theorem rendering_render (hsync : ∀ m d, ¬ s.Rendering m d) {params : RenderParams}
    (hfails : params.fails = false) {m : Nat} {d : Option Draw}
    (hm : (s.render n params).Rendering m d) : m = n := by
  cases hnext : s.nextFrame with
  | some f =>
    rw [render_of_some hnext hfails, rendering_begin] at hm
    · exact hm.1
    · exact fun m d habs => hsync m d ((rendering_broadcast s m d).mp habs)
  | none =>
    rw [render_of_none hnext hfails, rendering_begin] at hm
    · exact hm.1
    · exact hsync

theorem Alone.step {l : Label} (h : s.Alone) (hl : Synchronized s l)
    (hs : FrameHandover.step s l = some s') : s'.Alone := by
  obtain hsame | ⟨params, vo, -, rfl⟩ | ⟨f, -, rfl⟩ | ⟨f, wakes, -, -, rfl⟩ |
    ⟨n, params, rfl, hfails, rfl⟩ | ⟨n, draw, waits, hn, rfl⟩ := step_cases hs
  · exact Alone.of_iff h hsame.rendering
  · exact Alone.of_iff h (rendering_reconfig s params vo)
  · exact h
  · exact Alone.of_iff h (rendering_dropFrame s wakes)
  · intro m m' d e hm hm'
    exact (rendering_render hl hfails hm).trans (rendering_render hl hfails hm').symm
  · exact fun m n' d e hm => absurd hm (rendering_end h hn m d)

theorem alone_of_under (h : context.Under Synchronized s) : s.Alone := by
  refine h.invariant ?_ fun _ _ _ h hl hs => Alone.step h hl hs
  rintro _ rfl m n d e ⟨waits, hm⟩
  cases hm

/-! ## Runs of a few threads -/

/-- The thread is in `renderer->fns->render`, or skips that. -/
def inRenderer : Place Nat RenderSpot → Bool
  | .at (.rendering _ _) => true
  | _ => false

/-- Only the first `k` threads draw, and none begins while another is in the renderer. -/
def among (k : Nat) (s : State) : Label → Bool
  | .render n _ => n < k && (List.range k).all fun m => !inRenderer (s.renderer m)
  | _ => true

theorem not_rendering_of_inRenderer (hn : inRenderer (s.renderer n) = false) (d : Option Draw) :
    ¬ s.Rendering n d := by
  rintro ⟨waits, hrendering⟩
  rw [hrendering] at hn
  cases hn

/-- In such a run the threads from `k` on are not in the renderer. -/
theorem synchronized_of_among {k : Nat} (h : context.Under (fun s l => among k s l = true) s) :
    context.Under Synchronized s ∧ ∀ n d, s.Rendering n d → n < k := by
  induction h with
  | init hs =>
    refine ⟨.init hs, ?_⟩
    obtain rfl := hs
    rintro n d ⟨_, ⟨⟩⟩
  | @step s s' l _ hl hs ih =>
    obtain ⟨hunder, hk⟩ := ih
    have hsync : Synchronized s l := by
      cases l with
      | render n params =>
        intro m d hm
        have hall := (Bool.and_eq_true_iff.mp hl).2
        have hfree := List.all_eq_true.mp hall m (List.mem_range.mpr (hk m d hm))
        exact not_rendering_of_inRenderer (by simpa using hfree) d hm
      | _ => trivial
    refine ⟨hunder.step hsync hs, ?_⟩
    obtain hsame | ⟨params, vo, -, rfl⟩ | ⟨f, -, rfl⟩ | ⟨f, wakes, -, -, rfl⟩ |
      ⟨n, params, rfl, hfails, rfl⟩ | ⟨n, draw, waits, hn, rfl⟩ := step_cases hs
    · exact fun n d hn => hk n d ((hsame.rendering n d).mp hn)
    · exact fun n d hn => hk n d ((rendering_reconfig s params vo n d).mp hn)
    · exact hk
    · exact fun n d hn => hk n d ((rendering_dropFrame s wakes n d).mp hn)
    · have hnk : n < k := of_decide_eq_true (Bool.and_eq_true_iff.mp hl).1
      exact fun m d hm => rendering_render hsync hfails hm ▸ hnk
    · exact fun m d hm => absurd hm (rendering_end (alone_of_under hunder) hn m d)

/-! ## The order -/

/-- The number of the frame, if it is drawn as a new one. -/
def Draw.fresh (d : Draw) : Option Nat := if d.repeated then none else d.frame.map Frame.id

/-- The frames that were shown, the repeated ones included. -/
def frames (shown : List Shown) : List Frame := shown.filterMap fun x => x.frame

/-- Which of the frames that were sent have been shown as new ones. -/
def firstShown (shown : List Shown) : List Nat := shown.filterMap fun x => x.toDraw.fresh

/-- Each frame that was sent is drawn or skipped by one call, or given up, or left to be drawn. -/
structure InOrder (s : State) : Prop where
  sent : s.sent = s.fate.length + s.nextFrame.isSome.toNat
  nextFrame : ∀ f, s.nextFrame = some f → f.id = s.fate.length
  curFrame : ∀ f, s.curFrame = some f → f.id + 1 = s.fate.length
  /-- Those that were taken to be drawn were shown, once each and in this order, but for the one that
      is being drawn. -/
  drawn : ∀ d, s.Draws d →
    firstShown s.shown ++ (d.bind Draw.fresh).toList = s.fate.idxsOf Fate.drawn
  /-- Nothing older than the frame before is ever shown. -/
  sorted : ((frames s.shown).map Frame.id).Pairwise (· ≤ ·)
  below : ∀ f ∈ frames s.shown, f.id < s.fate.length
  drawing : ∀ n d f, s.Rendering n (some d) → d.frame = some f →
    f.id < s.fate.length ∧ ∀ x ∈ frames s.shown, x.id ≤ f.id

theorem InOrder.same (h : InOrder s) (hs : Same s s') : InOrder s' := by
  refine ⟨?_, ?_, ?_, fun d hd => ?_, ?_, ?_, fun n d f hd hf => ?_⟩
  · rw [hs.sent, hs.fate, hs.nextFrame]
    exact h.sent
  · rw [hs.nextFrame, hs.fate]
    exact h.nextFrame
  · rw [hs.curFrame, hs.fate]
    exact h.curFrame
  · rw [hs.shown, hs.fate]
    exact h.drawn d ((draws_congr hs.rendering).mp hd)
  · rw [hs.shown]
    exact h.sorted
  · rw [hs.shown, hs.fate]
    exact h.below
  · rw [hs.shown, hs.fate]
    exact h.drawing n d f ((hs.rendering n (some d)).mp hd) hf

/-- The last frame that left is shown. -/
theorem sorted_concat {fs : List Frame} {f : Frame} (h : (fs.map Frame.id).Pairwise (· ≤ ·))
    (hbelow : ∀ x ∈ fs, x.id ≤ f.id) : ((fs ++ [f]).map Frame.id).Pairwise (· ≤ ·) := by
  rw [List.map_append, List.pairwise_append]
  refine ⟨h, List.pairwise_singleton _ _, fun i hi j hj => ?_⟩
  obtain ⟨x, hx, rfl⟩ := List.mem_map.mp hi
  rw [List.map_singleton, List.mem_singleton] at hj
  exact hj ▸ hbelow x hx

/-- What a frame that is taken adds to those that are drawn. -/
theorem idxsOf_taken (fate : List Fate) (params : RenderParams) {f : Frame}
    (hid : f.id = fate.length) :
    (fate ++ [params.fate]).idxsOf Fate.drawn =
      fate.idxsOf Fate.drawn ++ ((params.draw ⟨some f, false⟩).bind Draw.fresh).toList := by
  cases hskip : params.skipRendering <;>
    simp [List.idxsOf_append, RenderParams.fate, RenderParams.draw, Draw.fresh, hskip, hid]

theorem draw_eq_some {params : RenderParams} {d e : Draw} (h : params.draw e = some d) : d = e := by
  unfold RenderParams.draw at h
  split at h <;> cases h
  rfl

theorem InOrder.render (h : InOrder s) (hsync : ∀ m d, ¬ s.Rendering m d) {params : RenderParams}
    (hfails : params.fails = false) (n : Nat) : InOrder (s.render n params) := by
  have hshown : firstShown s.shown = s.fate.idxsOf Fate.drawn := by
    simpa using h.drawn none fun n d => hsync n (some d)
  cases hnext : s.nextFrame with
  | some f =>
    have hid := h.nextFrame f hnext
    have hsync' : ∀ m d, ¬ s.broadcast.Rendering m d := fun m d habs =>
      hsync m d ((rendering_broadcast s m d).mp habs)
    have hlength : (s.fate ++ [params.fate]).length = s.fate.length + 1 := List.length_append
    rw [render_of_some hnext hfails]
    refine ⟨?_, by rintro f' ⟨⟩, ?_, fun d hd => ?_, h.sorted, fun x hx => ?_, fun m d x hd hx => ?_⟩
    · have hsent := h.sent
      rw [hnext] at hsent
      simpa [State.goto, State.broadcast] using hsent
    · rintro f' ⟨⟩
      simp [State.goto, hid]
    · rw [(draws_begin hsync' d).mp hd]
      simp only [State.goto, idxsOf_taken s.fate params hid, ← hshown]
      rfl
    · exact (h.below x hx).trans_le (hlength.symm ▸ Nat.le_succ _)
    · have hdraw := ((rendering_begin hsync' m (some d)).mp hd).2
      rw [draw_eq_some hdraw.symm] at hx
      cases hx
      refine ⟨?_, fun x hx => hid ▸ (h.below x hx).le⟩
      change f.id < (s.fate ++ [params.fate]).length
      omega
  | none =>
    rw [render_of_none hnext hfails]
    refine ⟨?_, ?_, h.curFrame, fun d hd => ?_, h.sorted, h.below, fun m d x hd hx => ?_⟩
    · simpa [State.goto, hnext] using h.sent
    · exact fun f hf => h.nextFrame f hf
    · rw [(draws_begin hsync d).mp hd]
      have hnone : (params.draw ⟨s.curFrame, true⟩).bind Draw.fresh = none := by
        unfold RenderParams.draw
        split <;> rfl
      rw [hnone]
      simpa [State.goto] using hshown
    · have hdraw := ((rendering_begin hsync m (some d)).mp hd).2
      rw [draw_eq_some hdraw.symm] at hx
      have hcur := h.curFrame x hx
      have hlt : x.id < s.fate.length := by omega
      refine ⟨hlt, fun y hy => ?_⟩
      have hbelow := h.below y hy
      omega

theorem InOrder.rendered (h : InOrder s) (halone : s.Alone) {draw : Option Draw}
    {waits : Option Nat} (hn : s.renderer n = .at (.rendering draw waits)) :
    InOrder (s.rendered n draw waits) := by
  have hend := rendering_end halone hn
  obtain ⟨p, -, heq⟩ := rendered_eq s n draw waits
  rw [heq] at hend ⊢
  cases draw with
  | none =>
    refine ⟨h.sent, h.nextFrame, h.curFrame, fun d hd => ?_, h.sorted, h.below,
      fun m d f hd => absurd hd (hend m (some d))⟩
    cases d with
    | none =>
      refine h.drawn none fun m d hm => ?_
      cases halone m n (some d) none hm ⟨waits, hn⟩
      obtain ⟨waits', hm⟩ := hm
      rw [hn] at hm
      cases hm
    | some d =>
      obtain ⟨m, hm⟩ := hd
      exact absurd hm (hend m (some d))
  | some e =>
    have hdrawn := h.drawn (some e) ⟨n, waits, hn⟩
    have hframes : frames (s.shown ++ [{ e with configured := s.configured : Shown }]) =
        frames s.shown ++ e.frame.toList := by
      cases hframe : e.frame <;> simp [frames, hframe]
    refine ⟨h.sent, h.nextFrame, h.curFrame, fun d hd => ?_, ?_, fun x hx => ?_,
      fun m d f hd => absurd hd (hend m (some d))⟩
    · cases d with
      | none =>
        change firstShown (s.shown ++ [{ e with configured := s.configured : Shown }]) ++ [] =
          s.fate.idxsOf Fate.drawn
        rw [← hdrawn]
        cases hfresh : e.fresh <;> simp [firstShown, hfresh]
      | some d =>
        obtain ⟨m, hm⟩ := hd
        exact absurd hm (hend m (some d))
    · refine (congrArg (fun fs => (fs.map Frame.id).Pairwise (· ≤ ·)) hframes).mpr ?_
      cases hframe : e.frame with
      | none => simpa using h.sorted
      | some f => exact sorted_concat h.sorted (h.drawing n e f ⟨waits, hn⟩ hframe).2
    · have hx : x ∈ frames s.shown ++ e.frame.toList := hframes ▸ hx
      obtain hx | hx := List.mem_append.mp hx
      · exact h.below x hx
      · exact (h.drawing n e x ⟨waits, hn⟩ (Option.mem_toList.mp hx)).1

theorem InOrder.step {l : Label} (h : InOrder s) (hwaits : Waits s) (halone : s.Alone)
    (hl : Synchronized s l) (hs : FrameHandover.step s l = some s') : InOrder s' := by
  obtain hsame | ⟨params, vo, -, rfl⟩ | ⟨f, hvo, rfl⟩ | ⟨f, wakes, hnext, -, rfl⟩ |
    ⟨n, params, rfl, hfails, rfl⟩ | ⟨n, draw, waits, hn, rfl⟩ := step_cases hs
  · exact h.same hsame
  · have hrendering := rendering_reconfig s params vo
    exact ⟨h.sent, h.nextFrame, by rintro f ⟨⟩,
      fun d hd => h.drawn d ((draws_congr hrendering).mp hd), h.sorted, h.below,
      fun n d f hd => h.drawing n d f ((hrendering n (some d)).mp hd)⟩
  · have hnone := hwaits.nextFrame_eq_none (not_out_of_at hvo (by rintro ⟨⟩) (by rintro ⟨⟩))
    have hsent : s.sent = s.fate.length := by
      simpa [hnone] using h.sent
    refine ⟨?_, ?_, h.curFrame, h.drawn, h.sorted, h.below, h.drawing⟩
    · simp [State.drawFrame, hsent]
    · rintro f' ⟨⟩
      exact hsent
  · have hrendering := rendering_dropFrame s wakes
    obtain ⟨renderer, -, heq⟩ := dropFrame_eq s wakes
    have hid := h.nextFrame f hnext
    rw [heq] at hrendering ⊢
    refine ⟨?_, by rintro f' ⟨⟩, ?_, fun d hd => ?_, h.sorted, fun x hx => ?_, fun n d x hd hx => ?_⟩
    · have hsent := h.sent
      rw [hnext] at hsent
      simpa using hsent
    · intro f' hf'
      rw [h.nextFrame f' hf', List.length_append]
      rfl
    · rw [List.idxsOf_append, ← h.drawn d ((draws_congr hrendering).mp hd)]
      simp
    · rw [List.length_append]
      exact Nat.lt_add_right 1 (h.below x hx)
    · obtain ⟨hlt, hle⟩ := h.drawing n d x ((hrendering n (some d)).mp hd) hx
      rw [List.length_append]
      exact ⟨Nat.lt_add_right 1 hlt, hle⟩
  · exact h.render hl hfails n
  · exact h.rendered halone hn

/-- The renderer draws no frame with other parameters than it was configured for. -/
structure Fits (s : State) : Prop where
  nextFrame : ∀ f, s.nextFrame = some f → f.params = s.imgParams
  curFrame : ∀ f, s.curFrame = some f → f.params = s.imgParams
  /-- The renderer is configured for `img_params`, or will be before it draws. -/
  configured : s.needReconfig = true ∨ s.configured = some s.imgParams ∨
    s.Unset ∧ s.nextFrame = none ∧ s.curFrame = none
  drawing : ∀ n d f, s.Rendering n (some d) → d.frame = some f → s.configured = some f.params
  shown : ∀ x ∈ s.shown, ∀ f, x.frame = some f → x.configured = some f.params

theorem Fits.same (h : Fits s) (hs : Same s s') : Fits s' := by
  refine ⟨?_, ?_, ?_, fun n d f hd hf => ?_, ?_⟩
  · rw [hs.nextFrame, hs.imgParams]
    exact h.nextFrame
  · rw [hs.curFrame, hs.imgParams]
    exact h.curFrame
  · rw [hs.needReconfig, hs.configured, hs.imgParams, hs.nextFrame, hs.curFrame]
    exact h.configured.imp_right (Or.imp_right fun hunused => ⟨hs.unset hunused.1, hunused.2⟩)
  · rw [hs.configured]
    exact h.drawing n d f ((hs.rendering n (some d)).mp hd) hf
  · rw [hs.shown]
    exact h.shown

/-- Before it draws a frame, a draw configures the renderer for the parameters of the frame. -/
theorem Fits.draws (h : Fits s) {f : Frame} (hf : s.nextFrame = some f ∨ s.curFrame = some f) :
    (if s.needReconfig then some s.imgParams else s.configured) = some f.params := by
  have hparams : f.params = s.imgParams := hf.elim (h.nextFrame f) (h.curFrame f)
  rw [hparams]
  split
  · rfl
  · rename_i hneed
    obtain hneeded | hconfigured | ⟨-, hnext, hcur⟩ := h.configured
    · exact absurd hneeded hneed
    · exact hconfigured
    · obtain hf | hf := hf
      · rw [hnext] at hf
        cases hf
      · rw [hcur] at hf
        cases hf

theorem Fits.render (h : Fits s) (hsync : ∀ m d, ¬ s.Rendering m d) {params : RenderParams}
    (hfails : params.fails = false) (n : Nat) : Fits (s.render n params) := by
  cases hnext : s.nextFrame with
  | some f =>
    have hsync' : ∀ m d, ¬ s.broadcast.Rendering m d := fun m d habs =>
      hsync m d ((rendering_broadcast s m d).mp habs)
    have hdraws := h.draws (.inl hnext)
    have hparams := h.nextFrame f hnext
    rw [render_of_some hnext hfails]
    refine ⟨?_, ?_, .inr (.inl ?_), fun m d x hd hx => ?_, h.shown⟩
    · rintro f' ⟨⟩
    · rintro f' ⟨⟩
      exact hparams
    · exact hdraws.trans (congrArg some hparams)
    · have hdraw := ((rendering_begin hsync' m (some d)).mp hd).2
      rw [draw_eq_some hdraw.symm] at hx
      cases hx
      exact hdraws
  | none =>
    rw [render_of_none hnext hfails]
    refine ⟨h.nextFrame, h.curFrame, ?_, fun m d x hd hx => ?_, h.shown⟩
    · cases hneed : s.needReconfig with
      | true => exact .inr (.inl rfl)
      | false =>
        obtain hneeded | hconfigured | hunused := h.configured
        · rw [hneed] at hneeded
          cases hneeded
        · exact .inr (.inl hconfigured)
        · exact .inr (.inr hunused)
    · have hdraw := ((rendering_begin hsync m (some d)).mp hd).2
      rw [draw_eq_some hdraw.symm] at hx
      exact h.draws (.inr hx)

theorem Fits.rendered (h : Fits s) (halone : s.Alone) {draw : Option Draw} {waits : Option Nat}
    (hn : s.renderer n = .at (.rendering draw waits)) : Fits (s.rendered n draw waits) := by
  have hend := rendering_end halone hn
  obtain ⟨p, -, heq⟩ := rendered_eq s n draw waits
  rw [heq] at hend ⊢
  cases draw with
  | none =>
    exact ⟨h.nextFrame, h.curFrame, h.configured, fun m d f hd => absurd hd (hend m (some d)),
      h.shown⟩
  | some e =>
    refine ⟨h.nextFrame, h.curFrame, h.configured, fun m d f hd => absurd hd (hend m (some d)),
      fun x hx => ?_⟩
    obtain hx | hx := List.mem_append.mp hx
    · exact h.shown x hx
    · rw [List.mem_singleton.mp hx]
      exact fun f hf => h.drawing n e f ⟨waits, hn⟩ hf

theorem Fits.step {l : Label} (h : Fits s) (hwaits : Waits s) (halone : s.Alone)
    (hl : Synchronized s l) (hs : FrameHandover.step s l = some s') : Fits s' := by
  obtain hsame | ⟨params, vo, hout, rfl⟩ | ⟨f, hvo, rfl⟩ | ⟨f, wakes, hnext, hunset, rfl⟩ |
    ⟨n, params, rfl, hfails, rfl⟩ | ⟨n, draw, waits, hn, rfl⟩ := step_cases hs
  · exact h.same hsame
  · have hnone := hwaits.nextFrame_eq_none hout
    refine ⟨fun f hf => ?_, by rintro f ⟨⟩, .inl rfl, fun n d f hd => ?_, h.shown⟩
    · have hf : s.nextFrame = some f := hf
      rw [hnone] at hf
      cases hf
    · exact h.drawing n d f ((rendering_reconfig s params vo n (some d)).mp hd)
  · refine ⟨?_, h.curFrame, ?_, h.drawing, h.shown⟩
    · rintro f' ⟨⟩
      rfl
    · refine h.configured.imp_right (Or.imp_right fun hunused => ?_)
      obtain hunset | hunset := hunused.1
      · cases hvo.symm.trans hunset
      · cases hvo.symm.trans hunset
  · have hrendering := rendering_dropFrame s wakes
    obtain ⟨renderer, -, heq⟩ := dropFrame_eq s wakes
    rw [heq] at hrendering ⊢
    refine ⟨by rintro f ⟨⟩, h.nextFrame, ?_, fun n d f hd => ?_, h.shown⟩
    · exact h.configured.imp_right (Or.imp_right fun hunused => absurd hunused.1 hunset)
    · exact h.drawing n d f ((hrendering n (some d)).mp hd)
  · exact h.render hl hfails n
  · exact h.rendered halone hn

/-- In every run in which draws are synchronized each frame is drawn, and drawn again, with the
    parameters that were set when it was sent, whatever was set since. -/
theorem fits_of_under (h : context.Under Synchronized s) : Fits s := by
  refine h.invariant_of
    (fun _ hs => And.intro (waits_of_reachable hs.reachable) (alone_of_under hs)) ?_
    fun _ _ _ hknown h hl hs => h.step hknown.1 hknown.2 hl hs
  rintro _ rfl
  exact ⟨nofun, nofun, .inr (.inr ⟨.inl rfl, rfl, rfl⟩), by rintro n d f ⟨_, ⟨⟩⟩, nofun⟩

/-- The parameters change between two frames, and while the first is drawn again. -/
theorem fits_after_reconfig : ∃ s, Fits s ∧ s.shown.map Shown.configured =
    [some (some 7), some (some 7), some (some 9), some (some 9)] := by
  obtain ⟨s, hs, htest⟩ := Machine.Under.execIf_any (fun _ _ h => h) (.init rfl)
    [.preinit, .reconfig 7, .drawFrame ⟨false, true⟩, .render 0 {}, .updated, .flipPage, .rendered 0,
      .render 1 {}, .reconfig 9, .rendered 1, .render 2 {}, .rendered 2, .drawFrame ⟨false, true⟩,
      .render 0 {}, .rendered 0]
    (M := context) (G := fun s l => among 3 s l = true) (g := among 3)
    (p := fun s => decide (s.shown.map Shown.configured =
      [some (some 7), some (some 7), some (some 9), some (some 9)])) (by decide +kernel)
  exact ⟨s, fits_of_under (synchronized_of_among hs).1, of_decide_eq_true htest⟩

/-- What the user has to see to is needed: while a thread is in the renderer, another one has it
    configured anew. -/
theorem not_fits_of_overlap : ∃ s, context.Reachable s ∧
    ∃ x ∈ s.shown, ∃ f, x.frame = some f ∧ x.configured ≠ some f.params := by
  obtain ⟨s, hs, htest⟩ := Machine.Reachable.exec_any (.init rfl : context.Reachable {})
    [.preinit, .reconfig 7, .drawFrame ⟨false, true⟩, .render 0 {}, .updated, .flipPage, .reconfig 9,
      .render 1 {}, .rendered 0]
    (p := fun s => s.shown.any fun x => x.frame.any fun f => x.configured ≠ some f.params)
    (by decide +kernel)
  obtain ⟨x, hx, htest⟩ := List.any_eq_true.mp htest
  obtain ⟨f, hf, hparams⟩ := (Option.any_eq_true _ _).mp htest
  exact ⟨s, hs, x, hx, f, hf, of_decide_eq_true hparams⟩

end FrameHandover
