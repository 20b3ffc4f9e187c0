-- SUMMARY: When the draw rendezvous deadlocks: the VO thread waits for a draw that waits for the VO thread.
import KitPlayerCore.View.Rendezvous

/-!
# Deadlock of the draw rendezvous

A draw that takes a new frame returns only after `flip_page`, and the VO thread
reaches `flip_page` only after a signal of `drawSem`. The wait closes into a
cycle when the frame is taken by the display block while no other signal is
there or on its way.
-/

namespace View

open Mpv Transition

/-! ## What every run keeps -/

/-- The VO thread holds `update_lock`. -/
def VoPc.inCallback : VoPc → Bool
  | .glupdate | .enqueue | .wait _ | .leave => true
  | .idle | .update | .flip => false

/-- How a frame passes from the VO thread to a drawing thread. -/
structure Handover (s : State) : Prop where
  lock : s.updateLock = s.vo.inCallback
  noFrame : s.vo = .idle → s.ctx.nextFrame = none
  target : ∀ t n, s.pc t = .present n → n ≤ s.ctx.presentCount + 1
  /-- A draw that still has to wait took the frame of the current round. -/
  taken : ∀ t n, s.pc t = .present n → s.ctx.presentCount < n →
    s.ctx.nextFrame = none ∧ s.vo ≠ .idle

theorem Handover.afterInitView : Handover .afterInitView where
  lock := rfl
  noFrame _ := rfl
  target _ _ h := by cases h
  taken _ _ h := by cases h

/-- Moving a drawing thread anywhere but into a wait keeps the hand-over. -/
theorem Handover.goto {s : State} (h : Handover s) (t : Drawer) {pc : DrawPc}
    (hpc : ∀ n, pc ≠ .present n) : Handover (s.goto t pc) where
  lock := h.lock
  noFrame := h.noFrame
  target u n hu := by
    rw [State.goto_pc] at hu
    split at hu
    · exact absurd hu (hpc n)
    · exact h.target u n hu
  taken u n hu hn := by
    rw [State.goto_pc] at hu
    split at hu
    · exact absurd hu (hpc n)
    · exact h.taken u n hu hn

/-- Taking the frame: the thread waits for the next `flip_page` only if there
    was a frame, and then the VO thread is in the middle of its round. -/
theorem Handover.take {s : State} (h : Handover s) (t : Drawer) :
    Handover ({ s with ctx := s.ctx.takeFrame.1 }.goto t (.present s.ctx.takeFrame.2)) where
  lock := h.lock
  noFrame _ := s.ctx.takeFrame_nextFrame
  target u n hu := by
    rw [State.goto_pc] at hu
    simp only [State.goto_ctx, RenderContext.takeFrame_presentCount]
    split at hu
    · cases hu
      exact s.ctx.takeFrame_target_le
    · exact h.target u n hu
  taken u n hu hn := by
    rw [State.goto_pc] at hu
    simp only [State.goto_ctx, RenderContext.takeFrame_presentCount] at hn
    refine ⟨s.ctx.takeFrame_nextFrame, ?_⟩
    split at hu
    · cases hu
      obtain ⟨f, hf, _⟩ := s.ctx.takeFrame_blocks_iff.mp hn
      intro hidle
      have hnone := h.noFrame hidle
      rw [hf] at hnone
      cases hnone
    · exact (h.taken u n hu hn).2

theorem Handover.step {s s' : State} {l : Label} (h : Handover s)
    (hs : step s l = some s') : Handover s' := by
  cases l with
  | drawFrame f =>
    obtain ⟨hidle, rfl⟩ := drawFrame_cases hs
    refine ⟨by simpa [hidle, VoPc.inCallback] using h.lock, by simp, h.target, ?_⟩
    intro t n ht hn
    exact absurd hidle (h.taken t n ht hn).2
  | update =>
    have hlock := h.lock
    obtain ⟨hv, hl, _, rfl⟩ | ⟨hv, hl, _, rfl⟩ | ⟨hv, _, rfl⟩ | ⟨hv, _, rfl⟩ | ⟨hv, rfl⟩ |
      ⟨k, hv, _, rfl⟩ | ⟨hv, rfl⟩ := update_cases hs
    all_goals
      refine ⟨by simp_all [VoPc.inCallback], by simp, h.target, ?_⟩
      intro t n ht hn
      exact ⟨(h.taken t n ht hn).1, by simp⟩
  | flipPage timeout =>
    obtain ⟨hv, ctx, hctx, rfl⟩ := flipPage_cases hs
    obtain ⟨hnone, hlt, _⟩ := RenderContext.flipPage_spec hctx
    refine ⟨by simpa [hv, VoPc.inCallback] using h.lock, fun _ => hnone, ?_, ?_⟩
    · intro t n ht
      have := h.target t n ht
      dsimp only
      omega
    · intro t n ht hn
      have := h.target t n ht
      dsimp only at hn
      omega
  | runBlock =>
    obtain ⟨_, _, rfl⟩ := runBlock_cases hs
    have h' : Handover { s with started := s.started + 1 } :=
      ⟨h.lock, h.noFrame, h.target, h.taken⟩
    exact h'.goto _ (by simp)
  | uikitDraw =>
    obtain ⟨_, _, rfl⟩ := uikitDraw_cases hs
    exact h.goto _ (by simp)
  | draw t =>
    obtain ⟨_, _, rfl⟩ | ⟨_, _, rfl⟩ | ⟨_, rfl⟩ | ⟨_, _, rfl⟩ | ⟨_, _, rfl⟩ | ⟨n, _, _, rfl⟩ |
      ⟨_, rfl⟩ := draw_cases hs
    case inr.inr.inr.inl => exact h.take t
    case inr.inr.inr.inr.inr.inr =>
      have h' : Handover { s with drawSem := s.drawSem + 1 } :=
        ⟨h.lock, h.noFrame, h.target, h.taken⟩
      exact h'.goto _ (by simp)
    all_goals exact h.goto _ (by simp)
  | callShutDown onMain =>
    obtain ⟨_, rfl⟩ := callShutDown_cases hs
    exact ⟨h.lock, h.noFrame, h.target, h.taken⟩
  | shutDown =>
    obtain ⟨_, rfl⟩ | ⟨_, _, rfl⟩ | ⟨_, rfl⟩ | ⟨_, _, rfl⟩ := shutDown_cases hs
    all_goals exact ⟨h.lock, h.noFrame, h.target, h.taken⟩

theorem handover_of_under {G : rendezvous.Guard} {s : State} (h : rendezvous.Under G s) :
    Handover s :=
  h.invariant (fun _ h => h ▸ .afterInitView) fun _ _ _ h _ hs => h.step hs

/-! ## The deadlock -/

/-- The thread `t` is in a draw that waits for `flip_page`. -/
def Blocked (s : State) (t : Drawer) : Prop :=
  ∃ n, s.pc t = .present n ∧ s.ctx.presentCount < n

/-- The VO thread waits on `drawSem`, the display block that would signal it
    waits for `flip_page`, and no other draw is on its way to a signal. -/
structure Stuck (s : State) : Prop where
  vo : ∃ k, s.vo = .wait k
  drawSem : s.drawSem = 0
  queue : Blocked s .queue
  main : s.pc .main = .idle ∨ Blocked s .main

/-- Nothing moves in the deadlock but what comes from outside: a new call of
    UIKit, or `shutDown`. -/
theorem Stuck.disabled {s s' : State} {l : Label} (h : Stuck s) (hs : step s l = some s') :
    l = .uikitDraw ∨ (∃ m, l = .callShutDown m) ∨ l = .shutDown := by
  obtain ⟨k, hk⟩ := h.vo
  obtain ⟨n, hn, hlt⟩ := h.queue
  cases l with
  | uikitDraw => exact .inl rfl
  | callShutDown m => exact .inr (.inl ⟨m, rfl⟩)
  | shutDown => exact .inr (.inr rfl)
  | drawFrame f => simp [step, hk] at hs
  | update => simp [step, State.update, hk, h.drawSem] at hs
  | flipPage timeout => simp [step, hk] at hs
  | runBlock => simp [step, hn] at hs
  | draw t =>
    cases t with
    | queue => simp [step, State.canCBDraw, hn, Nat.not_le.mpr hlt] at hs
    | main =>
      rcases h.main with hidle | ⟨m, hm, hlt'⟩
      · simp [step, State.canCBDraw, hidle] at hs
      · simp [step, State.canCBDraw, hm, Nat.not_le.mpr hlt'] at hs

/-- The run is still before `shutDown`. -/
def BeforeShutDown (_ : State) (l : Label) : Prop := ∀ m, l ≠ .callShutDown m

/-- The VO thread has passed its wait, or a signal for it is there, or a
    `drawRect:` that UIKit called is under way and will signal. -/
def Rescued (s : State) : Prop :=
  s.vo = .leave ∨ s.vo = .flip ∨ 0 < s.drawSem ∨ s.pc .main ≠ .idle

/-- A display block takes a frame that shows something new only when the VO
    thread does not depend on this block's signal. -/
def Paced (s : State) (l : Label) : Prop :=
  BeforeShutDown s l ∧
    (l = .draw .queue → s.pc .queue = .draw →
      ∀ f, s.ctx.nextFrame = some f → f.isRedraw = false → Rescued s)

/-- While the display block waits for `flip_page`, the VO thread can get there
    without it. -/
def Progress (s : State) : Prop :=
  Blocked s .queue →
    s.vo = .leave ∨ s.vo = .flip ∨ 0 < s.drawSem ∨
      (s.pc .main ≠ .idle ∧ ¬ Blocked s .main)

theorem Progress.not_stuck {s : State} (h : Progress s) : ¬ Stuck s := by
  intro hs
  obtain ⟨k, hk⟩ := hs.vo
  rcases h hs.queue with hv | hv | hsem | ⟨hmain, hblocked⟩
  · simp [hk] at hv
  · simp [hk] at hv
  · exact absurd hs.drawSem (by omega)
  · exact hs.main.elim hmain hblocked

theorem blocked_goto {s : State} {t u : Drawer} {pc : DrawPc} :
    Blocked (s.goto t pc) u ↔
      if u = t then ∃ n, pc = .present n ∧ s.ctx.presentCount < n else Blocked s u := by
  unfold Blocked
  simp only [State.goto_pc, State.goto_ctx]
  split <;> rfl

/-- A move of a drawing thread that starts no wait. When UIKit's draw ends, its
    signal is there. -/
private theorem progress_goto (s : State) (t : Drawer) {pc : DrawPc}
    (hpc : ∀ n, pc ≠ .present n) (hidle : pc = .idle → 0 < s.drawSem) :
    Progress (s.goto t pc) := by
  intro hb
  have hne : ∀ n, ¬ (pc = .present n ∧ s.ctx.presentCount < n) := fun n hn => hpc n hn.1
  cases t with
  | queue =>
    rw [blocked_goto, if_pos rfl] at hb
    obtain ⟨n, hn⟩ := hb
    exact absurd hn (hne n)
  | main =>
    by_cases hp : pc = .idle
    · exact .inr (.inr (.inl (hidle hp)))
    · refine .inr (.inr (.inr ⟨by simpa using hp, ?_⟩))
      rw [blocked_goto, if_pos rfl]
      rintro ⟨n, hn⟩
      exact hne n hn

/-- Taking the frame. A frame that shows something new is taken by the display
    block under the guard, and by UIKit's draw only while the display block is
    not blocked. -/
private theorem progress_take {s : State} (hh : Handover s) (t : Drawer)
    (hpaced : t = .queue → ∀ f, s.ctx.nextFrame = some f → f.isRedraw = false → Rescued s) :
    Progress ({ s with ctx := s.ctx.takeFrame.1 }.goto t (.present s.ctx.takeFrame.2)) := by
  intro hb
  rw [blocked_goto] at hb
  cases t with
  | queue =>
    simp only [if_pos, DrawPc.present.injEq, exists_eq_left',
      RenderContext.takeFrame_presentCount] at hb
    obtain ⟨f, hf, hnew⟩ := s.ctx.takeFrame_blocks_iff.mp hb
    rcases hpaced rfl f hf hnew with hv | hv | hsem | hmain
    · exact .inl hv
    · exact .inr (.inl hv)
    · exact .inr (.inr (.inl hsem))
    · refine .inr (.inr (.inr ⟨by simpa [State.goto_pc] using hmain, ?_⟩))
      rw [blocked_goto, if_neg (by decide)]
      rintro ⟨n, hn, hlt⟩
      -- the frame is still there, so no draw waits for this round's `flip_page`
      have hnone := (hh.taken .main n hn (by simpa using hlt)).1
      rw [hf] at hnone
      cases hnone
  | main =>
    rw [if_neg (by decide)] at hb
    obtain ⟨n, hn, hlt⟩ := hb
    have hlt' : s.ctx.presentCount < n := by simpa using hlt
    -- the display block took the frame of this round, so this draw takes none
    have hnone := (hh.taken .queue n hn hlt').1
    have hfree : ¬ s.ctx.presentCount < s.ctx.takeFrame.2 := by
      rw [RenderContext.takeFrame_blocks_iff]
      simp [hnone]
    refine .inr (.inr (.inr ⟨by simp, ?_⟩))
    rw [blocked_goto]
    simpa using hfree

theorem Progress.step {s s' : State} {l : Label} (hh : Handover s) (h : Progress s)
    (hp : Paced s l) (hs : step s l = some s') : Progress s' := by
  cases l with
  | drawFrame f =>
    obtain ⟨hidle, rfl⟩ := drawFrame_cases hs
    rintro ⟨n, hn, hlt⟩
    exact absurd hidle (hh.taken .queue n hn hlt).2
  | update =>
    obtain ⟨hv, _, _, rfl⟩ | ⟨hv, _, _, rfl⟩ | ⟨hv, _, rfl⟩ | ⟨hv, _, rfl⟩ | ⟨hv, rfl⟩ |
      ⟨k, hv, _, rfl⟩ | ⟨hv, rfl⟩ := update_cases hs
    all_goals intro hb
    case inr.inl => exact .inr (.inl rfl)
    case inr.inr.inl => exact .inl rfl
    case inr.inr.inr.inr.inr.inl => exact .inl rfl
    case inr.inr.inr.inr.inr.inr => exact .inr (.inl rfl)
    all_goals
      rcases h hb with hv' | hv' | hsem | hmain
      · simp [hv] at hv'
      · simp [hv] at hv'
      · exact .inr (.inr (.inl hsem))
      · exact .inr (.inr (.inr hmain))
  | flipPage timeout =>
    obtain ⟨_, ctx, hctx, rfl⟩ := flipPage_cases hs
    have hlt := (RenderContext.flipPage_spec hctx).2.1
    rintro ⟨n, hn, hlt'⟩
    have := hh.target .queue n hn
    dsimp only at hlt'
    omega
  | runBlock =>
    obtain ⟨_, _, rfl⟩ := runBlock_cases hs
    exact progress_goto _ .queue (by simp) (by simp)
  | uikitDraw =>
    obtain ⟨_, _, rfl⟩ := uikitDraw_cases hs
    exact progress_goto s .main (by simp) (by simp)
  | draw t =>
    obtain ⟨_, _, rfl⟩ | ⟨_, _, rfl⟩ | ⟨_, rfl⟩ | ⟨hdraw, _, rfl⟩ | ⟨_, _, rfl⟩ | ⟨n, _, _, rfl⟩ |
      ⟨_, rfl⟩ := draw_cases hs
    case inr.inr.inr.inl =>
      refine progress_take hh t fun ht => ?_
      subst ht
      exact hp.2 rfl hdraw
    case inr.inr.inr.inr.inr.inr =>
      exact progress_goto _ t (by simp) fun _ => Nat.succ_pos _
    all_goals exact progress_goto s t (by simp) (by simp)
  | callShutDown onMain => exact absurd rfl (hp.1 onMain)
  | shutDown =>
    obtain ⟨_, rfl⟩ | ⟨_, _, rfl⟩ | ⟨_, rfl⟩ | ⟨_, _, rfl⟩ := shutDown_cases hs
    all_goals exact h

theorem progress_of_paced {s : State} (h : rendezvous.Under Paced s) : Progress s := by
  refine h.invariant_of (J := Handover) (fun _ => handover_of_under) ?_ ?_
  · rintro _ rfl ⟨n, hn, _⟩
    cases hn
  · intro s s' l hh hi hp hs
    exact hi.step hh hp hs

/-! ## The deadlock is reached when a frame is not paced -/

/-- Before `shutDown` nothing is stopped. -/
structure Running (s : State) : Prop where
  isStopDraw : s.isStopDraw = false
  updateCb : s.ctx.updateCb = true
  gl : s.gl = true
  shutDown : s.shutDown = .idle

theorem Running.step {s s' : State} {l : Label} (h : Running s) (hl : BeforeShutDown s l)
    (hs : step s l = some s') : Running s' := by
  cases l with
  | drawFrame f =>
    obtain ⟨_, rfl⟩ := drawFrame_cases hs
    exact ⟨h.isStopDraw, h.updateCb, h.gl, h.shutDown⟩
  | update =>
    obtain ⟨_, _, _, rfl⟩ | ⟨_, _, _, rfl⟩ | ⟨_, _, rfl⟩ | ⟨_, _, rfl⟩ | ⟨_, rfl⟩ |
      ⟨k, _, _, rfl⟩ | ⟨_, rfl⟩ := update_cases hs
    all_goals exact ⟨h.isStopDraw, h.updateCb, h.gl, h.shutDown⟩
  | flipPage timeout =>
    obtain ⟨_, ctx, hctx, rfl⟩ := flipPage_cases hs
    exact ⟨h.isStopDraw, (RenderContext.flipPage_spec hctx).2.2.trans h.updateCb, h.gl,
      h.shutDown⟩
  | runBlock =>
    obtain ⟨_, _, rfl⟩ := runBlock_cases hs
    exact ⟨h.isStopDraw, h.updateCb, h.gl, h.shutDown⟩
  | uikitDraw =>
    obtain ⟨_, _, rfl⟩ := uikitDraw_cases hs
    exact ⟨h.isStopDraw, h.updateCb, h.gl, h.shutDown⟩
  | draw t =>
    obtain ⟨_, _, rfl⟩ | ⟨_, _, rfl⟩ | ⟨_, rfl⟩ | ⟨_, _, rfl⟩ | ⟨_, _, rfl⟩ | ⟨n, _, _, rfl⟩ |
      ⟨_, rfl⟩ := draw_cases hs
    all_goals exact ⟨h.isStopDraw, by simpa using h.updateCb, h.gl, h.shutDown⟩
  | callShutDown onMain => exact absurd rfl (hl onMain)
  | shutDown =>
    obtain ⟨hp, _⟩ | ⟨hp, _, _⟩ | ⟨hp, _⟩ | ⟨hp, _, _⟩ := shutDown_cases hs
    all_goals simp [h.shutDown] at hp

theorem running_of_under {s : State} (h : rendezvous.Under BeforeShutDown s) : Running s :=
  h.invariant (fun _ h => h ▸ ⟨rfl, rfl, rfl, rfl⟩) fun _ _ _ h hl hs => h.step hl hs

/-- From any point of its callback, the VO thread comes to wait on `drawSem`. -/
theorem exists_wait {s : State} (hh : Handover s) (hr : Running s)
    (hv : s.vo ≠ .idle) (hl : s.vo ≠ .leave) (hf : s.vo ≠ .flip) :
    ∃ n k lock calls, rendezvous.exec s (List.replicate n .update) =
      some { s with vo := .wait k, updateLock := lock, calls := calls } := by
  have hlock := hh.lock
  cases hvo : s.vo with
  | idle | leave | flip => simp_all
  | wait k => exact ⟨0, k, s.updateLock, s.calls, by rw [← hvo]; rfl⟩
  | enqueue =>
    refine ⟨1, s.calls, s.updateLock, s.calls + 1, ?_⟩
    simp [List.replicate, Machine.exec, rendezvous, step, State.update, hvo]
  | glupdate =>
    refine ⟨2, s.calls, s.updateLock, s.calls + 1, ?_⟩
    simp [List.replicate, Machine.exec, rendezvous, step, State.update, hvo, hr.isStopDraw]
  | update =>
    rw [hvo] at hlock
    refine ⟨3, s.calls, true, s.calls + 1, ?_⟩
    simp [List.replicate, Machine.exec, rendezvous, step, State.update, hvo, hr.isStopDraw,
      hr.updateCb, hlock, VoPc.inCallback]

/-- A display block that takes a new frame while the VO thread depends on its
    signal: the VO thread alone completes the deadlock. -/
theorem stuck_of_not_paced {s s' : State} {l : Label} (h : rendezvous.Under BeforeShutDown s)
    (hl : BeforeShutDown s l) (hp : ¬ Paced s l) (hs : step s l = some s') :
    ∃ n t, rendezvous.exec s' (List.replicate n .update) = some t ∧ Stuck t := by
  have hh := handover_of_under h
  have hrun := running_of_under h
  simp only [Paced, hl, true_and, not_forall] at hp
  obtain ⟨rfl, hpc, f, hf, hnew, hr⟩ := hp
  simp only [Rescued, not_or, not_not, Nat.not_lt, Nat.le_zero_eq] at hr
  obtain ⟨hleave, hflip, hsem, hmain⟩ := hr
  have hidle : s.vo ≠ .idle := by
    intro hidle
    rw [hh.noFrame hidle] at hf
    cases hf
  have hs' : s' = { s with ctx := s.ctx.takeFrame.1 }.goto .queue (.present s.ctx.takeFrame.2) := by
    simpa [step, State.canCBDraw, hpc, hrun.gl] using hs.symm
  subst hs'
  have hblocks := s.ctx.takeFrame_blocks_iff.mpr ⟨f, hf, hnew⟩
  obtain ⟨n, k, lock, calls, hexec⟩ :=
    exists_wait (hh.step hs) (hrun.step hl hs) hidle hleave hflip
  refine ⟨n, _, hexec, ⟨⟨k, rfl⟩, hsem, ⟨s.ctx.takeFrame.2, by simp, ?_⟩, .inl ?_⟩⟩
  · simpa using hblocks
  · simpa [State.goto_pc] using hmain

/-- Before `shutDown`, the draw rendezvous is free of deadlock along every run
    that paces its frames, and every step that does not leads to a deadlock. -/
theorem not_stuck_of_paced {s : State} (h : rendezvous.Under BeforeShutDown s) :
    (rendezvous.Under Paced s → ¬ Stuck s) ∧
      ∀ s' l, BeforeShutDown s l → ¬ Paced s l → step s l = some s' →
        ∃ n t, rendezvous.exec s' (List.replicate n .update) = some t ∧ Stuck t :=
  ⟨fun hpaced => (progress_of_paced hpaced).not_stuck,
    fun _ _ hl hp hs => stuck_of_not_paced h hl hp hs⟩

/-- UIKit has drawn once, so its signal releases the VO thread before the display
    block takes the first frame. -/
theorem not_stuck_after_uikitDraw :
    ∃ s, rendezvous.Under Paced s ∧ Blocked s .queue ∧ s.vo = .leave ∧ ¬ Stuck s := by
  have hrun : rendezvous.Under Paced _ :=
    (Machine.Under.init (s := State.afterInitView) rfl).exec
      ([.uikitDraw, .draw .main, .draw .main, .draw .main, .draw .main, .draw .main] ++
        [.drawFrame ⟨false, true⟩, .update, .update, .update, .update] ++
        [.runBlock, .draw .queue, .draw .queue, .draw .queue])
      (by simp [Machine.Meets, Paced, BeforeShutDown, Rescued, rendezvous, step, State.update,
            State.canCBDraw, State.goto, State.afterInitView, State.mainBusy, Function.update,
            RenderContext.takeFrame, RenderContext.drawFrame])
      rfl
  have hbefore : rendezvous.Under BeforeShutDown _ := hrun.mono fun _ _ hpaced => hpaced.1
  exact ⟨_, hrun, ⟨1, rfl, by decide⟩, rfl, (not_stuck_of_paced hbefore).1 hrun⟩

/-- UIKit never draws. The first frame of a video is taken by the display block
    that the VO thread waits for. -/
theorem stuck_at_first_frame : ¬ ∀ s, rendezvous.Under BeforeShutDown s → ¬ Stuck s := by
  intro h
  have hrun : rendezvous.Under BeforeShutDown _ :=
    (Machine.Under.init (s := State.afterInitView) rfl).exec
      [.drawFrame ⟨false, true⟩, .update, .update, .update, .runBlock, .draw .queue,
        .draw .queue, .draw .queue]
      (.of_forall (by simp [BeforeShutDown]) _) rfl
  exact h _ hrun ⟨⟨0, rfl⟩, rfl, ⟨1, rfl, by decide⟩, .inl rfl⟩

end View
