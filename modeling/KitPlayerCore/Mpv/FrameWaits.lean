-- SUMMARY: That nobody misses a wakeup on `video_wait`, and that a draw waits for no more than the `flip_page` of its own frame.
import KitPlayerCore.Mpv.FrameHandover

/-!
# Waiting for a frame

`flip_page` signals only one thread when it gives a frame up. That is enough, since no drawing
thread waits then: who took a frame was let go by the `flip_page` of that frame.
-/

namespace FrameHandover

open Mpv Transition

variable {s s' : State} {n : Nat}

/-! ## What is expected -/

/-- What a drawing thread waits for, or will. -/
def waitsOf : Place Nat RenderSpot → Option Nat
  | .at .idle => none
  | .at (.rendering _ waits) => waits
  | .asleep waits | .woken waits => some waits

@[simp] theorem waitsOf_wake (p : Place Nat RenderSpot) : waitsOf p.wake = waitsOf p := by
  obtain (_ | ⟨_, _⟩) | _ | _ := p <;> rfl

/-- The VO thread is between `draw_frame` and the end of the first loop of `flip_page`. -/
def State.Out (s : State) : Prop :=
  s.vo = .at .updating ∨ s.vo = .at .updated ∨ s.vo.waitsFor = some .rendered

/-- The drawing thread `n` has to wait for `waits`: it has taken the frame that the VO thread is
    about to flip. -/
structure State.Due (s : State) (n waits : Nat) : Prop where
  waits : waits = s.presentCount + 1
  nextFrame : s.nextFrame = none
  out : s.Out
  taker : s.taker = some n

/-- What the wait of the VO thread is for has not come yet. -/
def State.VoWaits (s : State) : VoWait → Prop
  | .rendered => s.nextFrame ≠ none
  | .presented => s.flipCount < s.expectedFlipCount ∧ s.flipCount ≠ 0

/-- Nobody waits in vain. -/
structure Waits (s : State) : Prop where
  /-- A frame is left only for the `flip_page` that follows. -/
  out : s.nextFrame ≠ none → s.Out
  /-- A drawing thread that has to wait has taken the frame that the VO thread is about to flip. -/
  due : ∀ n waits, waitsOf (s.renderer n) = some waits →
    waits ≤ s.presentCount ∨ s.Due n waits
  /-- Who sleeps has a reason to. -/
  renderers : Attentive (fun waits => s.presentCount < waits) s.renderer
  vo : ∀ c, s.vo = .asleep c → s.VoWaits c
  /-- `draw_frame` has found no frame left. -/
  asserts : s.failed = false

/-! ## Steps -/

theorem Waits.nextFrame_eq_none (h : Waits s) (hout : ¬ s.Out) : s.nextFrame = none := by
  by_contra hne
  exact hout (h.out hne)

/-- Where the VO thread has no frame out, every drawing thread may go. -/
theorem Waits.due_of_not_out (h : Waits s) (hout : ¬ s.Out) {waits : Nat}
    (hn : waitsOf (s.renderer n) = some waits) : waits ≤ s.presentCount := by
  obtain hle | hdue := h.due n waits hn
  · exact hle
  · exact absurd hdue.out hout

/-- While the frame is left, every drawing thread may go. -/
theorem Waits.due_of_nextFrame (h : Waits s) (hnext : s.nextFrame ≠ none) {waits : Nat}
    (hn : waitsOf (s.renderer n) = some waits) : waits ≤ s.presentCount := by
  obtain hle | hdue := h.due n waits hn
  · exact hle
  · exact absurd hdue.nextFrame hnext

theorem not_out_of_at {r : VoSpot} (hvo : s.vo = .at r) (hupdating : r ≠ .updating)
    (hupdated : r ≠ .updated) : ¬ s.Out := by
  rintro (hout | hout | hout)
  · rw [hvo] at hout
    exact hupdating (Place.at.inj hout)
  · rw [hvo] at hout
    exact hupdated (Place.at.inj hout)
  · rw [hvo] at hout
    cases hout

@[simp] theorem out_broadcast (s : State) : s.broadcast.Out ↔ s.Out := by
  simp [State.Out, State.broadcast]

theorem State.Due.broadcast {waits : Nat} (h : s.Due n waits) : s.broadcast.Due n waits :=
  ⟨h.waits, h.nextFrame, (out_broadcast s).mpr h.out, h.taker⟩

theorem Waits.broadcast (h : Waits s) : Waits s.broadcast := by
  refine ⟨fun hne => ?_, fun n waits hn => ?_, attentive_wake s.renderer, fun c hc => ?_, h.asserts⟩
  · rw [out_broadcast]
    exact h.out hne
  · exact (h.due n waits (by simpa [State.broadcast] using hn)).imp_right State.Due.broadcast
  · exact absurd hc (s.vo.wake_ne_asleep c)

/-- The VO thread has no frame out, before and after. -/
theorem Waits.quiet (h : Waits s) (hout : ¬ s.Out) (hnext : s'.nextFrame = s.nextFrame)
    (hcount : s'.presentCount = s.presentCount) (hrenderer : s'.renderer = s.renderer)
    (hvo : ∀ c, s'.vo = .asleep c → s'.VoWaits c) (hasserts : s'.failed = s.failed) : Waits s' := by
  refine ⟨fun hne => ?_, fun n waits hn => ?_, ?_, hvo, hasserts.trans h.asserts⟩
  · exact absurd (hnext.trans (h.nextFrame_eq_none hout)) hne
  · rw [hrenderer] at hn
    rw [hcount]
    exact .inl (h.due_of_not_out hout hn)
  · rw [hcount, hrenderer]
    exact h.renderers

/-- A drawing thread moves. -/
theorem Waits.goto (h : Waits s) {p : Place Nat RenderSpot}
    (hdue : ∀ waits, waitsOf p = some waits → waits ≤ s.presentCount ∨ s.Due n waits)
    (hasleep : ∀ waits, p = .asleep waits → s.presentCount < waits) : Waits (s.goto n p) := by
  refine ⟨h.out, fun m waits hm => ?_, h.renderers.update n hasleep, h.vo, h.asserts⟩
  by_cases hmn : m = n
  · subst hmn
    exact (hdue waits (by simpa [State.goto] using hm)).imp_right fun hdue =>
      ⟨hdue.waits, hdue.nextFrame, hdue.out, hdue.taker⟩
  · exact (h.due m waits (by simpa [State.goto, hmn] using hm)).imp_right fun hdue =>
      ⟨hdue.waits, hdue.nextFrame, hdue.out, hdue.taker⟩

theorem Waits.drawFrame (h : Waits s) (hvo : s.vo = .at .idle) (f : VoFrame) :
    Waits (s.drawFrame f) := by
  have hout := not_out_of_at hvo nofun nofun
  have hnone := h.nextFrame_eq_none hout
  refine ⟨fun _ => .inl rfl, fun n waits hn => .inl (h.due_of_not_out hout hn), h.renderers, nofun,
    ?_⟩
  simp [State.drawFrame, h.asserts, hnone]

theorem Waits.flipWait (h : Waits s) (hout : ¬ s.Out) : Waits s.flipWait := by
  unfold State.flipWait
  split
  · rename_i hcond
    refine h.quiet hout rfl rfl rfl ?_ rfl
    rintro c ⟨⟩
    exact hcond
  · exact h.quiet hout rfl rfl rfl nofun rfl

/-- What `flip_page` does to `present_count` when the frame was taken. -/
theorem flipPage_of_none (hnone : s.nextFrame = none) :
    ∃ vo : Place VoWait VoSpot,
      (∀ c, vo = .asleep c → c = .presented ∧ s.flipCount < s.expectedFlipCount ∧
        s.flipCount ≠ 0) ∧
      s.flipPage = { s with
        presentCount := s.presentCount + 1
        vo := vo
        renderer := fun n => (s.renderer n).wake } := by
  unfold State.flipPage
  rw [if_neg (by simp [hnone])]
  dsimp only
  split
  · exact ⟨.at .idle, nofun, rfl⟩
  · unfold State.flipWait
    split
    · rename_i hcond
      refine ⟨.asleep .presented, ?_, rfl⟩
      rintro c ⟨⟩
      exact ⟨rfl, hcond⟩
    · exact ⟨.at .idle, nofun, rfl⟩

theorem Waits.flipPage (h : Waits s) : Waits s.flipPage := by
  by_cases hnext : s.nextFrame = none
  · obtain ⟨vo, hasleep, heq⟩ := flipPage_of_none hnext
    rw [heq]
    refine ⟨fun hne => absurd hnext hne, fun n waits hn => .inl ?_, attentive_wake s.renderer,
      fun c hc => ?_, h.asserts⟩
    · obtain hle | hdue := h.due n waits (by simpa using hn)
      · exact Nat.le_succ_of_le hle
      · exact hdue.waits.le
    · obtain ⟨rfl, hcond⟩ := hasleep c hc
      exact hcond
  · have heq : s.flipPage = { s with vo := .asleep .rendered } :=
      if_pos (Option.isSome_iff_ne_none.mpr hnext)
    rw [heq]
    refine ⟨fun _ => .inr (.inr rfl), fun n waits hn => .inl (h.due_of_nextFrame hnext hn),
      h.renderers, ?_, h.asserts⟩
    rintro c ⟨⟩
    exact hnext

/-- A frame is given up only when no drawing thread sleeps. -/
theorem Waits.dropFrame (h : Waits s) (hnext : s.nextFrame ≠ none) (wakes : Option Nat) :
    Waits (s.dropFrame wakes) := by
  have hnobody (n waits : Nat) : s.renderer n ≠ .asleep waits := by
    intro hasleep
    have hle := h.due_of_nextFrame (n := n) hnext (by rw [hasleep]; rfl)
    exact absurd hle (Nat.not_le.mpr (h.renderers n waits hasleep))
  have hwaits : Waits { s with
      curFrame := s.nextFrame
      nextFrame := none
      presentCount := s.presentCount + 2
      vo := .at .idle
      fate := s.fate ++ [.dropped] } := by
    refine ⟨fun hne => absurd rfl hne, fun n waits hn => .inl ?_, fun n waits hn => ?_, nofun,
      h.asserts⟩
    · exact (h.due_of_nextFrame hnext hn).trans (Nat.le_add_right _ 2)
    · exact absurd hn (hnobody n waits)
  unfold State.dropFrame
  cases wakes with
  | none => exact hwaits
  | some n =>
    refine hwaits.goto (fun waits hn => .inl ?_) fun waits hn => ?_
    · exact (h.due_of_nextFrame hnext (by simpa using hn)).trans (Nat.le_add_right _ 2)
    · exact absurd hn ((s.renderer n).wake_ne_asleep waits)

theorem Waits.render (h : Waits s) (n : Nat) (params : RenderParams) :
    Waits (s.render n params) := by
  unfold State.render
  split
  · exact h
  · dsimp only
    split
    · rename_i f hf
      have hnext : s.nextFrame ≠ none := by simp [hf]
      have hout := h.out hnext
      have hwaits : Waits { s.broadcast with
          nextFrame := none
          curFrame := some f
          needReconfig := false
          configured := if s.needReconfig then some s.imgParams else s.configured
          taker := some n
          fate := s.fate ++ [params.fate] } := by
        refine ⟨fun hne => absurd rfl hne, fun m waits hm => .inl ?_, attentive_wake s.renderer,
          fun c hc => absurd hc (s.vo.wake_ne_asleep c), h.asserts⟩
        exact h.due_of_nextFrame hnext (by simpa [State.broadcast] using hm)
      refine hwaits.goto (fun waits hm => ?_) nofun
      obtain ⟨-, hm⟩ := Option.ite_none_right_eq_some.mp hm
      have hm : (if f.frame.isRedraw then s.presentCount else s.presentCount + 1) = waits :=
        Option.some.inj hm
      split at hm
      · exact .inl hm.ge
      · exact .inr ⟨hm.symm, rfl, (out_broadcast s).mpr hout, rfl⟩
    · have hwaits : Waits { s with
          needReconfig := false
          configured := if s.needReconfig then some s.imgParams else s.configured } :=
        ⟨h.out, fun n waits hn => (h.due n waits hn).imp_right fun hdue =>
          ⟨hdue.waits, hdue.nextFrame, hdue.out, hdue.taker⟩, h.renderers, h.vo, h.asserts⟩
      refine hwaits.goto (fun waits hm => ?_) nofun
      obtain ⟨-, hm⟩ := Option.ite_none_right_eq_some.mp hm
      exact .inl (Option.some.inj hm).ge

theorem Waits.draw (h : Waits s) (d : Option Draw) : Waits (s.draw d) := by
  cases d with
  | none => exact h
  | some d =>
    exact ⟨h.out, fun n waits hn => (h.due n waits hn).imp_right fun hdue =>
      ⟨hdue.waits, hdue.nextFrame, hdue.out, hdue.taker⟩, h.renderers, h.vo, h.asserts⟩

@[simp] theorem renderer_draw (s : State) (d : Option Draw) : (s.draw d).renderer = s.renderer := by
  cases d <;> rfl

theorem Waits.await (h : Waits s) {waits : Nat} (hn : waitsOf (s.renderer n) = some waits) :
    Waits (s.await n waits) := by
  refine h.goto (fun waits' hp => ?_) fun waits' hp => ?_
  · split at hp
    · cases hp
      exact h.due n _ hn
    · cases hp
  · split at hp
    · cases hp
      assumption
    · cases hp

theorem Waits.step {l : Label} (h : Waits s) (hs : FrameHandover.step s l = some s') : Waits s' := by
  -- the VO thread leaves and enters the context without a frame
  have hreconfig (params : Option Nat) {vo : VoSpot} (hvo : vo ≠ .updating)
      (hout : ¬ s.Out) : Waits (s.reconfig params vo) := by
    refine Waits.broadcast ?_
    exact h.quiet hout rfl rfl rfl nofun rfl
  have hidle (hvo : s.vo = .at .fresh ∨ s.vo = .at .idle) : ¬ s.Out := by
    obtain hvo | hvo := hvo
    · exact not_out_of_at hvo nofun nofun
    · exact not_out_of_at hvo nofun nofun
  cases l with
  | preinit =>
    simp only [FrameHandover.step, Option.ite_none_right_eq_some, Option.some.injEq] at hs
    obtain ⟨hvo, rfl⟩ := hs
    exact h.quiet (not_out_of_at hvo nofun nofun) rfl rfl rfl nofun rfl
  | reconfig params =>
    simp only [FrameHandover.step, Option.ite_none_right_eq_some, Option.some.injEq] at hs
    exact hs.2 ▸ hreconfig (some params) nofun (hidle hs.1)
  | reset =>
    simp only [FrameHandover.step, Option.ite_none_right_eq_some, Option.some.injEq] at hs
    exact hs.2 ▸ h.broadcast
  | uninit =>
    simp only [FrameHandover.step, Option.ite_none_right_eq_some, Option.some.injEq] at hs
    exact hs.2 ▸ hreconfig none nofun (hidle hs.1)
  | drawFrame f =>
    simp only [FrameHandover.step, Option.ite_none_right_eq_some, Option.some.injEq] at hs
    exact hs.2 ▸ h.drawFrame hs.1 f
  | updated =>
    simp only [FrameHandover.step, Option.ite_none_right_eq_some, Option.some.injEq] at hs
    obtain ⟨-, rfl⟩ := hs
    exact ⟨fun _ => .inr (.inl rfl), fun n waits hn => (h.due n waits hn).imp_right fun hdue =>
      ⟨hdue.waits, hdue.nextFrame, .inr (.inl rfl), hdue.taker⟩, h.renderers, nofun, h.asserts⟩
  | flipPage =>
    simp only [FrameHandover.step, Option.ite_none_right_eq_some, Option.some.injEq] at hs
    exact hs.2 ▸ h.flipPage
  | vo =>
    simp only [FrameHandover.step] at hs
    split at hs
    · rename_i c hc
      cases hs
      cases c with
      | rendered => exact h.flipPage
      | presented => exact h.flipWait (by simp [State.Out, hc])
    · cases hs
  | voTimeout wakes =>
    have htimeout (c : VoWait) (hc : s.vo.waitsFor = some c) : Waits (s.voTimeout wakes c) := by
      cases c with
      | rendered =>
        unfold State.voTimeout
        dsimp only
        split
        · rename_i hsome
          exact h.dropFrame (Option.isSome_iff_ne_none.mp hsome) wakes
        · exact h.flipPage
      | presented =>
        have hne (r : VoSpot) : s.vo ≠ .at r := by
          intro habs
          rw [habs] at hc
          cases hc
        exact h.quiet (by simp [State.Out, hc, hne]) rfl rfl rfl nofun rfl
    simp only [FrameHandover.step] at hs
    split at hs
    · rename_i c hc
      cases hs
      exact htimeout c (by rw [hc]; rfl)
    · rename_i c hc
      cases hs
      exact htimeout c (by rw [hc]; rfl)
    · cases hs
  | wakeVo =>
    simp only [FrameHandover.step] at hs
    split at hs
    · cases hs
      have hout (hout : s.Out) : State.Out { s with vo := s.vo.wake } := by
        simpa [State.Out] using hout
      exact ⟨fun hne => hout (h.out hne), fun n waits hn => (h.due n waits hn).imp_right fun hdue =>
        ⟨hdue.waits, hdue.nextFrame, hout hdue.out, hdue.taker⟩, h.renderers,
        fun c hc => absurd hc (s.vo.wake_ne_asleep c), h.asserts⟩
    · cases hs
  | render n params =>
    simp only [FrameHandover.step, Option.ite_none_right_eq_some, Option.some.injEq] at hs
    exact hs.2 ▸ h.render n params
  | rendered n =>
    simp only [FrameHandover.step] at hs
    split at hs
    · rename_i draw waits hrendering
      cases hs
      cases waits with
      | none => exact (h.draw draw).goto nofun nofun
      | some waits => exact (h.draw draw).await (by rw [renderer_draw, hrendering]; rfl)
    · cases hs
  | renderer n =>
    simp only [FrameHandover.step] at hs
    split at hs
    · rename_i waits hwaits
      cases hs
      exact h.await (by rw [hwaits]; rfl)
    · cases hs
  | wakeRenderer n =>
    simp only [FrameHandover.step] at hs
    split at hs
    · cases hs
      exact h.goto (fun waits hn => h.due n waits (by simpa using hn))
        fun waits hn => absurd hn ((s.renderer n).wake_ne_asleep waits)
    · cases hs
  | reportSwap =>
    cases hs
    refine ⟨fun hne => (out_broadcast _).mpr (h.out hne), fun n waits hn => ?_,
      attentive_wake s.renderer, fun c hc => absurd hc (s.vo.wake_ne_asleep c), h.asserts⟩
    refine (h.due n waits (by simpa [State.broadcast] using hn)).imp_right fun hdue => ?_
    exact ⟨hdue.waits, hdue.nextFrame, (out_broadcast s).mpr hdue.out, hdue.taker⟩

theorem waits_of_reachable (h : context.Reachable s) : Waits s := by
  refine h.invariant ?_ fun _ _ _ h _ hs => h.step hs
  rintro _ rfl
  exact ⟨fun hne => absurd rfl hne, nofun, nofun, nofun, rfl⟩

/-- In every reachable state, whoever sleeps on `video_wait` has a reason to: a drawing thread has
    itself taken the frame that the VO thread is about to flip, and what the VO thread waits for has
    not come yet. -/
theorem sleeps_of_reachable (h : context.Reachable s) :
    (∀ n waits, s.renderer n = .asleep waits → s.Due n waits) ∧
      (∀ c, s.vo = .asleep c → s.VoWaits c) ∧ s.failed = false := by
  have hwaits := waits_of_reachable h
  refine ⟨fun n waits hasleep => ?_, hwaits.vo, hwaits.asserts⟩
  obtain hle | hdue := hwaits.due n waits (by rw [hasleep]; rfl)
  · exact absurd hle (Nat.not_le.mpr (hwaits.renderers n waits hasleep))
  · exact hdue

/-- A drawing thread sleeps, and the VO thread is about to flip the frame that it took. -/
theorem sleeps_while_drawing : ∃ s : State, s.renderer 0 = .asleep 1 ∧ s.vo = .at .updating ∧
    s.Due 0 1 := by
  obtain ⟨s, hs, htest⟩ := Machine.Reachable.exec_any (.init rfl : context.Reachable {})
    [.preinit, .reconfig 7, .drawFrame ⟨false, true⟩, .render 0 {}, .rendered 0]
    (p := fun s => decide (s.renderer 0 = .asleep 1 ∧ s.vo = .at .updating)) (by decide +kernel)
  obtain ⟨hasleep, hvo⟩ := of_decide_eq_true htest
  exact ⟨s, hasleep, hvo, (sleeps_of_reachable hs).1 0 1 hasleep⟩

/-! ## Returning -/

/-- The VO thread goes on in `flip_page`, and the drawing thread `n` in its call. The update callback
    returns, if `callback` says that it may. -/
def Finishes (n : Nat) (callback : Bool) : Label → Prop
  | .flipPage | .vo => True
  | .updated => callback = true
  | .rendered m | .renderer m => m = n
  | _ => False

/-- A drawing thread that may go comes out of its call. -/
theorem drawn_of_due {callback : Bool}
    (hn : ∀ waits, waitsOf (s.renderer n) = some waits → waits ≤ s.presentCount)
    (hawake : ∀ waits, s.renderer n ≠ .asleep waits) :
    ∃ t, context.Leads (Finishes n callback) s t ∧ t.renderer n = .at .idle := by
  have hawait {u : State} {waits : Nat} (hle : waits ≤ u.presentCount) :
      (u.await n waits).renderer n = .at .idle := by
    simp [State.await, State.goto, Nat.not_lt.mpr hle]
  cases hp : s.renderer n with
  | «at» r =>
    cases r with
    | idle => exact ⟨s, .refl s, hp⟩
    | rendering draw waits =>
      have hstep : context.step s (.rendered n) = some (s.rendered n draw waits) := by
        simp only [context, FrameHandover.step, hp]
      refine ⟨_, .single (l := .rendered n) rfl hstep, ?_⟩
      cases waits with
      | none => simp [State.rendered, State.goto]
      | some waits =>
        have hcount : (s.draw draw).presentCount = s.presentCount := by cases draw <;> rfl
        exact hawait (hcount ▸ hn waits (by rw [hp]; rfl))
  | asleep waits => exact absurd hp (hawake waits)
  | woken waits =>
    have hstep : context.step s (.renderer n) = some (s.await n waits) := by
      simp only [context, FrameHandover.step, hp]
    exact ⟨_, .single (l := .renderer n) rfl hstep, hawait (hn waits (by rw [hp]; rfl))⟩

/-- Once its frame is flipped, a drawing thread comes out of its call. -/
theorem drawn_of_flipped (hnone : s.nextFrame = none) {callback : Bool}
    (hn : ∀ waits, waitsOf (s.renderer n) = some waits → waits ≤ s.presentCount + 1) :
    ∃ t, context.Leads (Finishes n callback) s.flipPage t ∧ t.renderer n = .at .idle := by
  obtain ⟨vo, -, heq⟩ := flipPage_of_none hnone
  refine drawn_of_due (fun waits hwaits => ?_) fun waits => ?_
  · rw [heq] at hwaits ⊢
    exact hn waits (by simpa using hwaits)
  · rw [heq]
    exact (s.renderer n).wake_ne_asleep waits

/-- From every reachable state a draw can return with the `flip_page` that is under way: no other
    frame, no other draw and no timeout is needed for it. The update callback has to return only
    where the VO thread is in it. -/
theorem drawn_of_reachable (h : context.Reachable s) (n : Nat) :
    ∃ t, context.Leads (Finishes n (s.vo = .at .updating)) s t ∧ t.renderer n = .at .idle := by
  have hwaits := waits_of_reachable h
  by_cases hle : ∀ waits, waitsOf (s.renderer n) = some waits → waits ≤ s.presentCount
  · refine drawn_of_due hle fun waits hasleep => ?_
    exact absurd (hle waits (by rw [hasleep]; rfl))
      (Nat.not_le.mpr (hwaits.renderers n waits hasleep))
  · push Not at hle
    obtain ⟨waits, hn, hlt⟩ := hle
    have hdue := (hwaits.due n waits hn).resolve_left (Nat.not_le.mpr hlt)
    have hnone := hdue.nextFrame
    have hbound : ∀ waits', waitsOf (s.renderer n) = some waits' → waits' ≤ s.presentCount + 1 := by
      intro waits' hn'
      rw [hn] at hn'
      exact Option.some.inj hn' ▸ hdue.waits.le
    -- the frame was taken, so `flip_page` counts it and wakes the thread up
    obtain hvo | hvo | hvo := hdue.out
    · have hreturn : context.step s .updated = some { s with vo := .at .updated } := if_pos hvo
      have hflip : context.step { s with vo := .at .updated } .flipPage =
          some (State.flipPage { s with vo := .at .updated }) := rfl
      obtain ⟨t, hlead, hidle⟩ :=
        drawn_of_flipped (s := { s with vo := .at .updated }) hnone hbound
      exact ⟨t, .head (l := .updated) (decide_eq_true hvo) hreturn
        (.head (l := .flipPage) trivial hflip hlead), hidle⟩
    · have hflip : context.step s .flipPage = some s.flipPage := if_pos hvo
      obtain ⟨t, hlead, hidle⟩ := drawn_of_flipped hnone hbound
      exact ⟨t, .head (l := .flipPage) trivial hflip hlead, hidle⟩
    · cases hp : s.vo with
      | «at» r =>
        rw [hp] at hvo
        cases hvo
      | asleep c =>
        rw [hp] at hvo
        cases hvo
        exact absurd hnone (hwaits.vo .rendered hp)
      | woken c =>
        rw [hp] at hvo
        cases hvo
        have hflip : context.step s .vo = some s.flipPage := by
          simp only [context, FrameHandover.step, hp]
          rfl
        obtain ⟨t, hlead, hidle⟩ := drawn_of_flipped hnone hbound
        exact ⟨t, .head (l := .vo) trivial hflip hlead, hidle⟩

/-- A drawing thread that sleeps comes out of its call, where the update callback is over. -/
theorem drawn_after_sleep : ∃ s t, s.renderer 0 = .asleep 1 ∧
    context.Leads (Finishes 0 false) s t ∧ t.renderer 0 = .at .idle := by
  obtain ⟨s, hs, htest⟩ := Machine.Reachable.exec_any (.init rfl : context.Reachable {})
    [.preinit, .reconfig 7, .drawFrame ⟨false, true⟩, .render 0 {}, .rendered 0, .updated]
    (p := fun s => decide (s.renderer 0 = .asleep 1 ∧ s.vo = .at .updated)) (by decide +kernel)
  obtain ⟨hasleep, hvo⟩ := of_decide_eq_true htest
  obtain ⟨t, hlead, hidle⟩ := drawn_of_reachable hs 0
  rw [hvo] at hlead
  exact ⟨s, t, hasleep, hlead, hidle⟩

end FrameHandover
