-- SUMMARY: That the lock of the dispatch queue excludes all others from the core, that no wakeup is lost, and that every request can be granted.
import KitPlayerCore.Mpv.Dispatch

/-!
# The lock of the core

`lock_requests` keeps the target thread in `mp_dispatch_queue_process` until every thread
that asked for the lock has had it. Whoever changes what others wait for broadcasts, or
knows that nobody waits for it.
-/

namespace Dispatch

open Transition

variable {α : Type} {s s' : State α} {n : Nat}

/-! ## What is expected -/

/-- The thread is counted in `lock_requests`. -/
def Requests : Place ClientWait ClientSpot → Prop
  | .at .calling | .at .holding => True
  | .asleep .inProcess | .woken .inProcess | .asleep .unlocked | .woken .unlocked => True
  | .at .idle | .asleep (.completed _) | .woken (.completed _) => False

/-- A thread has the core to itself, and the queue knows where all are. -/
structure Exclusive (s : State α) : Prop where
  unique : ∀ m n, s.client m = .at .holding → s.client n = .at .holding → m = n
  /-- Meanwhile the target thread is in `mp_dispatch_queue_process`, and in no callback. -/
  target : ∀ n, s.client n = .at .holding →
    s.target ≠ .at .outside ∧ ∀ item, s.target ≠ .at (.running item)
  lockRequests : Counts Requests s.client s.lockRequests
  inProcess : s.inProcess = true ↔ s.target ≠ .at .outside
  locked : s.locked = true ↔
    (∃ n, s.client n = .at .holding) ∨ ∃ item, s.target = .at (.running item)
  lockedExplicit : ∀ n, s.client n = .at .holding ↔ s.lockedExplicit = some n
  /-- No assertion of the functions above has failed. -/
  asserts : s.failed = false

/-- What the wait of a client is for has not come yet. -/
def State.Awaits (s : State α) : ClientWait → Prop
  | .inProcess => s.inProcess = false
  | .unlocked => s.locked = true
  | .completed id => id ∉ s.completed

/-- What the wait of the target thread is for has not come yet. -/
def State.Rests (s : State α) : TargetWait → Prop
  | .noRequests => 0 < s.lockRequests
  | .work => s.queue = [] ∧ s.interrupted = false ∧ 0 < s.wait

/-- No one sleeps who has a reason to go on. -/
structure Awake (s : State α) : Prop where
  clients : Attentive s.Awaits s.client
  target : ∀ c, s.target = .asleep c → s.Rests c

/-! ## The invariant -/

/-- The thread has found the target thread in `mp_dispatch_queue_process`. -/
def Engaged : Place ClientWait ClientSpot → Prop
  | .at .holding | .asleep .unlocked | .woken .unlocked => True
  | _ => False

theorem Engaged.requests {p : Place ClientWait ClientSpot} (h : Engaged p) : Requests p := by
  obtain (_ | _ | _) | (_ | _ | _) | (_ | _ | _) := p <;> trivial

@[simp] theorem requests_wake (p : Place ClientWait ClientSpot) : Requests p.wake ↔ Requests p := by
  obtain _ | (_ | _ | _) | _ := p <;> exact Iff.rfl

@[simp] theorem engaged_wake (p : Place ClientWait ClientSpot) : Engaged p.wake ↔ Engaged p := by
  obtain _ | (_ | _ | _) | _ := p <;> exact Iff.rfl

/-- What holds of the other threads, wherever the target thread is. -/
structure Clients (s : State α) : Prop where
  requests : Counts Requests s.client s.lockRequests
  holder : ∀ n, s.client n = .at .holding ↔ s.lockedExplicit = some n
  engaged : ∀ n, Engaged (s.client n) → s.inProcess = true
  awake : Attentive s.Awaits s.client
  asserts : s.failed = false

structure Locking (s : State α) : Prop extends Clients s where
  locked : s.locked = true ↔ s.lockedExplicit ≠ none ∨ ∃ item, s.target = .at (.running item)
  running : ∀ item, s.target = .at (.running item) → s.lockedExplicit = none
  inProcess : s.inProcess = true ↔ s.target ≠ .at .outside
  rests : ∀ c, s.target = .asleep c → s.Rests c

/-! ## The target thread -/

theorem Clients.not_engaged (h : Clients s) (hs : s.lockRequests = 0) (n : Nat) :
    ¬ Engaged (s.client n) := fun hn => (hs ▸ h.requests).not_of_zero n hn.requests

/-- Where no lock is requested, none is held. -/
theorem Clients.lockedExplicit_eq_none (h : Clients s) (hs : s.lockRequests = 0) :
    s.lockedExplicit = none := by
  by_contra hne
  obtain ⟨n, hn⟩ := Option.ne_none_iff_exists'.mp hne
  have hholds := (h.holder n).mpr hn
  exact h.not_engaged hs n (hholds ▸ trivial)

/-- What the loop does: it waits while the lock is requested, takes the next item, waits for
    work, or ends. -/
theorem loop_cases (s : State α) :
    (0 < s.lockRequests ∧ s.loop = { s with target := .asleep .noRequests }) ∨
      s.lockRequests = 0 ∧
        ((∃ item queue, s.queue = item :: queue ∧
            s.loop = { s with
              queue := queue
              locked := true
              begun := s.begun ++ [item.id]
              target := .at (.running item)
              failed := s.assert !s.locked }) ∨
          s.queue = [] ∧
            ((0 < s.wait ∧ s.interrupted = false ∧ s.loop = { s with target := .asleep .work }) ∨
              s.loop = { s with
                inProcess := false
                interrupted := false
                target := .at .outside
                failed := s.assert !s.locked })) := by
  unfold State.loop
  split
  · rename_i hrequests
    exact .inl ⟨hrequests, rfl⟩
  · rename_i hrequests
    refine .inr ⟨by omega, ?_⟩
    split
    · rename_i item queue hqueue
      exact .inl ⟨item, queue, hqueue, rfl⟩
    · rename_i hqueue
      refine .inr ⟨hqueue, ?_⟩
      split
      · rename_i hwait
        exact .inl ⟨hwait.1, hwait.2, rfl⟩
      · exact .inr rfl

/-- The loop leaves the other threads alone, and stays in while one of them asks for the lock. -/
theorem Clients.loop (h : Clients s) (hin : s.inProcess = true)
    (hlocked : s.locked = true ↔ s.lockedExplicit ≠ none) : Locking s.loop := by
  obtain ⟨hrequests, heq⟩ | ⟨hzero, hrest⟩ := loop_cases s
  · rw [heq]
    refine ⟨⟨h.requests, h.holder, h.engaged, h.awake, h.asserts⟩, by simpa using hlocked, nofun,
      by simpa using hin, ?_⟩
    rintro c ⟨⟩
    exact hrequests
  have hnone := h.lockedExplicit_eq_none hzero
  have hfree : s.locked = false := by simpa [hnone] using hlocked
  have hasserts : s.assert (!s.locked) = false := by simp [State.assert, h.asserts, hfree]
  obtain ⟨item, queue, hqueue, heq⟩ | ⟨hqueue, ⟨hwait, hinterrupted, heq⟩ | heq⟩ := hrest
  · rw [heq]
    refine ⟨⟨h.requests, h.holder, h.engaged, h.awake.mono ?_, hasserts⟩, by simp,
      fun _ _ => hnone, by simpa using hin, nofun⟩
    rintro n (_ | _ | _) - hc
    · exact hc
    · rfl
    · exact hc
  · rw [heq]
    refine ⟨⟨h.requests, h.holder, h.engaged, h.awake, h.asserts⟩, by simpa using hlocked,
      nofun, by simpa using hin, ?_⟩
    rintro c ⟨⟩
    exact ⟨hqueue, hinterrupted, hwait⟩
  · rw [heq]
    refine ⟨⟨h.requests, h.holder, fun n hn => ?_, h.awake.mono ?_, hasserts⟩,
      by simpa using hlocked, nofun, by simp, nofun⟩
    · exact absurd hn (h.not_engaged hzero n)
    · rintro n (_ | _ | _) - hc
      · rfl
      · exact hc
      · exact hc

/-- A broadcast wakes everybody, and changes nothing else. -/
theorem Locking.broadcast (h : Locking s) : Locking s.broadcast where
  requests := h.requests.congr fun n => requests_wake (s.client n)
  holder n := by simpa [State.broadcast] using h.holder n
  engaged n hn := h.engaged n ((engaged_wake _).mp hn)
  awake := attentive_wake s.client
  asserts := h.asserts
  locked := by simpa [State.broadcast] using h.locked
  running item hitem := h.running item (by simpa [State.broadcast] using hitem)
  inProcess := by simpa [State.broadcast] using h.inProcess
  rests c hc := absurd hc (s.target.wake_ne_asleep c)

/-! ## Requests -/

/-- A thread that asks for the lock moves to another place where it does so. -/
theorem Locking.goto (h : Locking s) {p : Place ClientWait ClientSpot}
    (hn : s.client n ≠ .at .holding) (hp : p ≠ .at .holding)
    (hrequests : Requests p ↔ Requests (s.client n)) (hengaged : Engaged p → s.inProcess = true)
    (hawake : ∀ c, p = .asleep c → s.Awaits c) : Locking (s.goto n p) := by
  refine ⟨⟨h.requests.stay hrequests, fun m => ?_, fun m hm => ?_, h.awake.update n hawake,
    h.asserts⟩, h.locked, h.running, h.inProcess, h.rests⟩
  · by_cases hm : m = n
    · subst hm
      simpa [State.goto, hp] using (h.holder m).not.mp hn
    · simpa [State.goto, hm] using h.holder m
  · by_cases hmn : m = n
    · subst hmn
      exact hengaged (by simpa [State.goto] using hm)
    · exact h.engaged m (by simpa [State.goto, hmn] using hm)

theorem Locking.acquire (h : Locking s) (hin : s.inProcess = true) (hn : Requests (s.client n))
    (hne : s.client n ≠ .at .holding) : Locking (s.acquire n) := by
  unfold State.acquire
  split
  · rename_i hcond
    have hlocked : s.locked = true := by simpa [hin] using hcond
    refine h.goto hne nofun (iff_of_true trivial hn) (fun _ => hin) ?_
    rintro c ⟨⟩
    exact hlocked
  · rename_i hcond
    have hfree : s.locked = false := by simpa [hin] using hcond
    obtain ⟨hexplicit, hrunning⟩ := not_or.mp (mt h.locked.mpr (by simp [hfree]))
    have hnone : s.lockedExplicit = none := by simpa using hexplicit
    have hrequests := h.requests.pos hn
    refine ⟨⟨h.requests.stay (iff_of_true trivial hn), fun m => ?_, fun m hm => ?_,
      (h.awake.mono ?_).update n nofun, ?_⟩, ?_, fun item hitem => ?_, h.inProcess, h.rests⟩
    · by_cases hm : m = n
      · subst hm
        simp [State.goto]
      · have hother : s.client m ≠ .at .holding := by
          rw [Ne, h.holder m, hnone]
          nofun
        simp [State.goto, hm, hother, Ne.symm hm]
    · exact hin
    · rintro m (_ | _ | _) - hc
      · exact hc
      · rfl
      · exact hc
    · simp [State.goto, State.assert, h.asserts, hfree, hnone, hrequests]
    · simp [State.goto]
    · exact absurd ⟨item, hitem⟩ hrunning

theorem Locking.trap (h : Locking s) (hn : Requests (s.client n))
    (hne : s.client n ≠ .at .holding) : Locking (s.trap n) := by
  unfold State.trap
  split
  · rename_i hin
    exact h.acquire hin hn hne
  · exact h.goto hne nofun (iff_of_true trivial hn) (fun hp => hp.elim) nofun

theorem Locking.called (h : Locking s) (hn : Requests (s.client n))
    (hne : s.client n ≠ .at .holding) : Locking (s.called n) := by
  unfold State.called
  split
  · rename_i hin
    exact h.acquire hin hn hne
  · rename_i hin
    refine h.goto hne nofun (iff_of_true trivial hn) (fun hp => hp.elim) ?_
    rintro c ⟨⟩
    exact Bool.eq_false_of_not_eq_true hin

theorem trap_goto (s : State α) (n : Nat) (p : Place ClientWait ClientSpot) :
    (s.goto n p).trap n = s.trap n := by
  simp only [State.trap, State.acquire, State.goto, State.assert, Function.update_idem]
  rfl

theorem Locking.lock (h : Locking s) (hn : s.client n = .at .idle) : Locking (s.lock n) := by
  have hexplicit : s.lockedExplicit ≠ some n := by
    rw [Ne, ← h.holder n, hn]
    nofun
  let counted : State α :=
    { s with
      lockRequests := s.lockRequests + 1
      failed := s.assert (s.lockedExplicit ≠ some n) }
  -- the thread is counted from here on, wherever it goes next
  have hcounted : Locking (counted.goto n (.at .calling)) := by
    refine ⟨⟨h.requests.enter trivial (by rw [hn]; exact id), fun m => ?_, fun m hm => ?_,
      h.awake.update n nofun, ?_⟩, h.locked, h.running, h.inProcess, fun c hc => ?_⟩
    · by_cases hm : m = n
      · subst hm
        simpa [State.goto, counted, State.assert] using hexplicit
      · simpa [State.goto, hm] using h.holder m
    · by_cases hmn : m = n
      · subst hmn
        simp [State.goto, Engaged] at hm
      · exact h.engaged m (by simpa [State.goto, hmn, counted, State.assert] using hm)
    · simp [State.goto, counted, State.assert, h.asserts, hexplicit]
    · have hrest := h.rests c hc
      cases c with
      | noRequests => exact Nat.lt_succ_of_lt hrest
      | work => exact hrest
  have hplace : (counted.goto n (.at .calling)).client n = .at .calling := by simp [State.goto]
  have htrap := hcounted.trap (n := n) (by rw [hplace]; trivial) (by rw [hplace]; nofun)
  rwa [trap_goto] at htrap

theorem Locking.unlock (h : Locking s) (hn : s.client n = .at .holding) :
    Locking (s.unlock n) := by
  have hexplicit := (h.holder n).mp hn
  have hlocked : s.locked = true := h.locked.mpr (.inl (by simp [hexplicit]))
  have hnotRunning (item : Item α) : s.target ≠ .at (.running item) := by
    intro hitem
    rw [h.running item hitem] at hexplicit
    cases hexplicit
  have hin : s.inProcess = true := h.engaged n (hn ▸ trivial)
  have houtside := h.inProcess.mp hin
  refine ⟨⟨(h.requests.congr fun m => requests_wake (s.client m)).leave id ?_, fun m => ?_,
    fun m _ => hin, (attentive_wake s.client).update n nofun, ?_⟩, ?_, fun item hitem => ?_, ?_,
    fun c hc => absurd hc (s.target.wake_ne_asleep c)⟩
  · exact (requests_wake _).mpr (hn ▸ trivial)
  · by_cases hm : m = n
    · subst hm
      simp [State.unlock, State.goto, State.broadcast]
    · have hother : s.client m ≠ .at .holding := by
        rw [Ne, h.holder m, hexplicit, Option.some.injEq]
        exact Ne.symm hm
      simp [State.unlock, State.goto, State.broadcast, hm, hother]
  · simp [State.unlock, State.goto, State.broadcast, State.assert, h.asserts, hlocked, hexplicit]
  · simp [State.unlock, State.goto, State.broadcast, State.assert, hnotRunning]
  · exact absurd (by simpa [State.unlock, State.goto, State.broadcast, State.assert] using hitem)
      (hnotRunning item)
  · simpa [State.unlock, State.goto, State.broadcast, State.assert, hin] using houtside

/-! ## Steps -/

/-- The target thread comes back to its loop, and nobody runs a callback. -/
theorem Locking.loop (h : Locking s) (hin : s.inProcess = true)
    (hrunning : ∀ item, s.target ≠ .at (.running item)) : Locking s.loop :=
  h.toClients.loop hin (h.locked.trans (or_iff_left fun ⟨item, hitem⟩ => hrunning item hitem))

theorem Locking.append [DecidableEq α] (h : Locking s) (item : Item α) :
    Locking (s.append item) := by
  unfold State.append
  split
  · exact ⟨⟨h.requests, h.holder, h.engaged, h.awake, h.asserts⟩, h.locked, h.running,
      h.inProcess, h.rests⟩
  · have hb := h.broadcast
    exact ⟨⟨hb.requests, hb.holder, hb.engaged, hb.awake, hb.asserts⟩, hb.locked, hb.running,
      hb.inProcess, fun c hc => absurd hc (s.target.wake_ne_asleep c)⟩

theorem Locking.process (h : Locking s) (houtside : s.target = .at .outside) (wait : Int) :
    Locking (s.process wait) := by
  have hin : s.inProcess = false := by simpa [houtside] using h.inProcess
  have hlocked : s.locked = true ↔ s.lockedExplicit ≠ none := by
    simpa [houtside] using h.locked
  have hasserts : s.assert (!s.inProcess) = false := by simp [State.assert, hin, h.asserts]
  unfold State.process
  dsimp only
  split
  · exact Clients.loop ⟨h.requests.congr fun n => requests_wake (s.client n),
      fun n => by simpa [State.broadcast] using h.holder n, fun _ _ => rfl,
      attentive_wake s.client, hasserts⟩ rfl hlocked
  · rename_i hzero
    refine Clients.loop ⟨h.requests, h.holder, fun _ _ => rfl, h.awake.mono ?_, hasserts⟩ rfl
      hlocked
    -- nobody waits for the target thread, or lock_requests would not be 0
    rintro n (_ | _ | id) hn hc
    · exact absurd (h.requests.pos (by rw [hn]; trivial)) hzero
    · exact hc
    · exact hc

theorem Locking.finish (h : Locking s) {item : Item α} (hitem : s.target = .at (.running item)) :
    Locking (s.finish item) := by
  have hnone := h.running item hitem
  have hlocked : s.locked = true := h.locked.mpr (.inr ⟨item, hitem⟩)
  have hin : s.inProcess = true := h.inProcess.mpr (by simp [hitem])
  have hasserts : s.assert s.locked = false := by simp [State.assert, hlocked, h.asserts]
  have hexplicit : false = true ↔ s.lockedExplicit ≠ none := by simp [hnone]
  have hholder (n : Nat) : (s.client n).wake = .at .holding ↔ s.lockedExplicit = some n := by
    simpa using h.holder n
  have hrequests := h.requests.congr fun n => requests_wake (s.client n)
  unfold State.finish
  split
  · exact Clients.loop ⟨hrequests, hholder, fun _ _ => hin, attentive_wake s.client, hasserts⟩ hin
      hexplicit
  · exact Clients.loop ⟨hrequests, hholder, fun _ _ => hin, attentive_wake s.client, hasserts⟩ hin
      hexplicit

/-- A thread that asks for no lock goes to another such place. -/
theorem Locking.stroll (h : Locking s) {p : Place ClientWait ClientSpot}
    (hn : ¬ Requests (s.client n)) (hp : ¬ Requests p) (hawake : ∀ c, p = .asleep c → s.Awaits c) :
    Locking (s.goto n p) := by
  refine h.goto ?_ ?_ (iff_of_false hp hn) (fun hengaged => absurd hengaged.requests hp) hawake
  · exact fun heq => hn (heq ▸ trivial)
  · rintro rfl
    exact hp trivial

theorem Locking.next (h : Locking s) (hs : s.next n = some s') : Locking s' := by
  unfold State.next at hs
  split at hs
  · rename_i hn
    cases hs
    exact h.called (by rw [hn]; trivial) (by rw [hn]; nofun)
  · rename_i hn
    cases hs
    exact h.trap (by rw [hn]; trivial) (by rw [hn]; nofun)
  · rename_i hn
    cases hs
    exact h.acquire (h.engaged n (by rw [hn]; trivial)) (by rw [hn]; trivial) (by rw [hn]; nofun)
  · rename_i id hn
    cases hs
    refine h.stroll (by rw [hn]; exact fun hr => hr) ?_ ?_
    · split <;> exact fun hr => hr
    · intro c hc
      split at hc
      · cases hc
      · rename_i hid
        cases hc
        exact hid
  all_goals cases hs

theorem Locking.step [DecidableEq α] {l : Label α} (h : Locking s)
    (hs : Dispatch.step s l = some s') : Locking s' := by
  cases l with
  | enqueue fn mergeable =>
    cases hs
    exact h.append _
  | cancel fn =>
    simp only [Dispatch.step, State.cancel, Option.ite_none_left_eq_some, Option.some.injEq] at hs
    obtain ⟨-, rfl⟩ := hs
    refine ⟨⟨h.requests, h.holder, h.engaged, h.awake, h.asserts⟩, h.locked, h.running,
      h.inProcess, fun c hc => ?_⟩
    have hrest := h.rests c hc
    cases c with
    | noRequests => exact hrest
    | work =>
      refine ⟨?_, hrest.2⟩
      have hqueue := hrest.1
      simp [hqueue]
  | interrupt =>
    cases hs
    have hb := h.broadcast
    exact ⟨⟨hb.requests, hb.holder, hb.engaged, hb.awake, hb.asserts⟩, hb.locked, hb.running,
      hb.inProcess, fun c hc => absurd hc (s.target.wake_ne_asleep c)⟩
  | adjustTimeout until' =>
    cases hs
    unfold State.adjustTimeout
    split
    · have hb := h.broadcast
      exact ⟨⟨hb.requests, hb.holder, hb.engaged, hb.awake, hb.asserts⟩, hb.locked, hb.running,
        hb.inProcess, fun c hc => absurd hc (s.target.wake_ne_asleep c)⟩
    · exact h
  | process wait =>
    simp only [Dispatch.step, Option.ite_none_right_eq_some, Option.some.injEq] at hs
    obtain ⟨houtside, rfl⟩ := hs
    exact h.process houtside wait
  | finish =>
    simp only [Dispatch.step] at hs
    split at hs
    · rename_i item hitem
      cases hs
      exact h.finish hitem
    · cases hs
  | timeout =>
    simp only [Dispatch.step, Option.ite_none_right_eq_some, Option.some.injEq] at hs
    obtain ⟨hasleep, rfl⟩ := hs
    have hin : s.inProcess = true := h.inProcess.mpr (by simp [hasleep])
    refine Clients.loop ⟨h.requests, h.holder, h.engaged, h.awake, h.asserts⟩ hin ?_
    simpa [hasleep] using h.locked
  | wakeTarget =>
    simp only [Dispatch.step] at hs
    split at hs
    · rename_i c hasleep
      cases hs
      refine ⟨⟨h.requests, h.holder, h.engaged, h.awake, h.asserts⟩, ?_, ?_, ?_, ?_⟩
      · simpa using h.locked
      · simpa using h.running
      · simpa using h.inProcess
      · exact fun c hc => absurd hc (s.target.wake_ne_asleep c)
    · cases hs
  | target =>
    simp only [Dispatch.step] at hs
    split at hs
    · rename_i c hwoken
      cases hs
      exact h.loop (h.inProcess.mpr (by simp [hwoken])) (by simp [hwoken])
    · cases hs
  | wakeClient n =>
    simp only [Dispatch.step] at hs
    split at hs
    · rename_i c hasleep
      cases hs
      refine h.goto (by simp [hasleep]) (by simp [hasleep]) (requests_wake _) ?_ ?_
      · exact fun hp => h.engaged n ((engaged_wake _).mp hp)
      · exact fun c hc => absurd hc ((s.client n).wake_ne_asleep c)
    · cases hs
  | client n => exact h.next hs
  | lock n =>
    simp only [Dispatch.step, Option.ite_none_right_eq_some, Option.some.injEq] at hs
    obtain ⟨hn, rfl⟩ := hs
    exact h.lock hn
  | unlock n =>
    simp only [Dispatch.step, Option.ite_none_right_eq_some, Option.some.injEq] at hs
    obtain ⟨hn, rfl⟩ := hs
    exact h.unlock hn
  | run n fn =>
    simp only [Dispatch.step, Option.ite_none_right_eq_some, Option.some.injEq] at hs
    obtain ⟨hn, rfl⟩ := hs
    refine (h.append _).stroll ?_ (fun hr => hr) nofun
    have hclient : Requests ((s.append ⟨s.added, fn, false, false⟩).client n) ↔
        Requests (s.client n) := by
      unfold State.append
      split
      · exact Iff.rfl
      · exact requests_wake _
    rw [hclient, hn]
    exact fun hr => hr

theorem locking_of_reachable [DecidableEq α] (h : (dispatch α).Reachable s) : Locking s := by
  refine h.invariant ?_ fun _ _ _ h _ hs => h.step hs
  rintro _ ⟨hasWakeupFn, rfl⟩
  exact ⟨⟨counts_zero fun n hn => hn, fun n => by simp, fun n hn => hn.elim, nofun, rfl⟩, by simp,
    nofun, by simp, nofun⟩

/-! ## What comes out of it -/

/-- In every reachable state the lock of the core excludes the core itself, its callbacks and
    all other threads, and the fields of the queue say who is where. -/
theorem exclusive_of_reachable [DecidableEq α] (h : (dispatch α).Reachable s) : Exclusive s := by
  have hlocking := locking_of_reachable h
  have hheld : s.lockedExplicit ≠ none ↔ ∃ n, s.client n = .at .holding := by
    rw [Option.ne_none_iff_exists']
    exact exists_congr fun n => (hlocking.holder n).symm
  refine ⟨fun m n hm hn => ?_, fun n hn => ?_, hlocking.requests, hlocking.inProcess,
    hlocking.locked.trans (or_congr_left hheld), hlocking.holder, hlocking.asserts⟩
  · have hsame := ((hlocking.holder m).mp hm).symm.trans ((hlocking.holder n).mp hn)
    exact Option.some.inj hsame
  · refine ⟨hlocking.inProcess.mp (hlocking.engaged n (hn ▸ trivial)), fun item hitem => ?_⟩
    have hexplicit := (hlocking.holder n).mp hn
    rw [hlocking.running item hitem] at hexplicit
    cases hexplicit

/-- One thread has the lock, another one waits for it. -/
theorem exclusive_while_waiting : ∃ s : State Nat, Exclusive s ∧
    s.client 0 = .at .holding ∧ s.client 1 = .asleep .unlocked := by
  obtain ⟨s, hs, htest⟩ := Machine.Reachable.exec_any
    (.init ⟨false, rfl⟩ : (dispatch Nat).Reachable { hasWakeupFn := false })
    [.lock 0, .client 0, .process 5, .client 0, .lock 1]
    (p := fun s => decide (s.client 0 = .at .holding ∧ s.client 1 = .asleep .unlocked))
    (by decide +kernel)
  exact ⟨s, exclusive_of_reachable hs, of_decide_eq_true htest⟩

/-- In no reachable state has a wakeup been lost. -/
theorem awake_of_reachable [DecidableEq α] (h : (dispatch α).Reachable s) : Awake s :=
  have hlocking := locking_of_reachable h
  ⟨hlocking.awake, hlocking.rests⟩

/-- The target thread waits for the one that has the lock, a thread in `mp_dispatch_run` for it. -/
theorem awake_while_waiting : ∃ s : State Nat, Awake s ∧
    s.target = .asleep .noRequests ∧ s.client 1 = .asleep (.completed 0) := by
  obtain ⟨s, hs, htest⟩ := Machine.Reachable.exec_any
    (.init ⟨true, rfl⟩ : (dispatch Nat).Reachable { hasWakeupFn := true })
    [.process 5, .lock 0, .run 1 7, .client 1, .target]
    (p := fun s => decide (s.target = .asleep .noRequests ∧ s.client 1 = .asleep (.completed 0)))
    (by decide +kernel)
  exact ⟨s, awake_of_reachable hs, of_decide_eq_true htest⟩

end Dispatch
