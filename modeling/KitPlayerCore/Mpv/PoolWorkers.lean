-- SUMMARY: That the workers of the thread pool are as many as they should be, and that none sleeps while there is work for it.
import KitPlayerCore.Mpv.ThreadPool

/-!
# Workers

A worker that has the lock again looks for work before it sleeps or leaves. So it is enough to
count those that are on their way: while some worker sleeps, they are as many as the work.
-/

namespace ThreadPool

open Transition

variable {s s' : State} {i : Nat} {w : Worker}

def Running (w : Worker) : Prop := ∃ item, w = .at (.running item)

/-- The worker is about to look for work. -/
def OnWay (w : Worker) : Prop := w = .at .ready ∨ ∃ timed, w = .woken timed

/-- Each worker is where it can be found. -/
structure Housed (s : State) : Prop where
  created : ∀ i, s.spawned ≤ i → s.worker i = .at .ended
  nodup : s.threads.Nodup
  alive : ∀ i, s.worker i ≠ .at .ended → i ∈ if s.terminate then s.joining else s.threads
  listed : ∀ i ∈ s.threads, s.worker i ≠ .at .ended
  terminated : s.terminate = true → s.threads = [] ∧ ∀ i, (s.worker i).isAsleep = false
  joined : s.terminate = false → s.joining = []
  gone : s.gone = true → s.terminate = true ∧ s.joining = []

/-- The workers are as many as are counted, and not fewer than are needed. -/
structure Pooled (s : State) : Prop where
  housed : Housed s
  busy : Counts Running s.worker s.busyThreads
  /-- A worker that sleeps is not missed. -/
  onWay : ∃ n, Counts OnWay s.worker n ∧
    ∀ i, (s.worker i).isAsleep = true → s.work.length ≤ n
  /-- Work is not left alone. -/
  manned : s.work ≠ [] → ∃ i, s.worker i ≠ .at .ended
  reserved : s.terminate = false → s.short = false →
    s.busyThreads + s.work.length ≤ s.threads.length ∨ s.maxThreads ≤ s.threads.length
  atMost : s.threads.length ≤ s.maxThreads
  /-- Threads beyond the minimum come and go, and the others stay. -/
  atLeast : s.terminate = false → min s.minThreads s.spawned ≤ s.threads.length
  max : 0 < s.maxThreads
  asserts : s.failed = false

/-! ## Places -/

@[simp] theorem running_ready : ¬Running (.at .ready) := by
  rintro ⟨_, ⟨⟩⟩

@[simp] theorem running_running (item : Nat) : Running (.at (.running item)) := ⟨item, rfl⟩

@[simp] theorem running_ended : ¬Running (.at .ended) := by
  rintro ⟨_, ⟨⟩⟩

@[simp] theorem running_asleep (timed : Bool) : ¬Running (.asleep timed) := by
  rintro ⟨_, ⟨⟩⟩

@[simp] theorem running_woken (timed : Bool) : ¬Running (.woken timed) := by
  rintro ⟨_, ⟨⟩⟩

@[simp] theorem running_wake : Running w.wake ↔ Running w := by
  cases w <;> simp

@[simp] theorem onWay_ready : OnWay (.at .ready) := .inl rfl

@[simp] theorem onWay_running (item : Nat) : ¬OnWay (.at (.running item)) := by
  rintro (⟨⟨⟩⟩ | ⟨_, ⟨⟩⟩)

@[simp] theorem onWay_ended : ¬OnWay (.at .ended) := by
  rintro (⟨⟨⟩⟩ | ⟨_, ⟨⟩⟩)

@[simp] theorem onWay_asleep (timed : Bool) : ¬OnWay (.asleep timed) := by
  rintro (⟨⟨⟩⟩ | ⟨_, ⟨⟩⟩)

@[simp] theorem onWay_woken (timed : Bool) : OnWay (.woken timed) := .inr ⟨timed, rfl⟩

theorem OnWay.not_running (h : OnWay w) : ¬Running w := by
  rintro ⟨_, rfl⟩
  simp at h

theorem OnWay.ne_ended (h : OnWay w) : w ≠ .at .ended := by
  rintro rfl
  simp at h

theorem OnWay.not_asleep (h : OnWay w) : w.isAsleep = false := by
  obtain rfl | ⟨_, rfl⟩ := h <;> rfl

theorem onWay_of_asleep (h : w.isAsleep = true) : OnWay w.wake := by
  cases w <;> simp_all

@[simp] theorem State.goto_worker_self (s : State) (i : Nat) (w : Worker) :
    (s.goto i w).worker i = w :=
  Function.update_self ..

theorem State.goto_worker_of_ne {j : Nat} (s : State) (w : Worker) (h : j ≠ i) :
    (s.goto i w).worker j = s.worker j :=
  Function.update_of_ne h ..

theorem goto_goto (s : State) (i : Nat) (w w' : Worker) : (s.goto i w).goto i w' = s.goto i w' := by
  simp [State.goto]

theorem leave_goto (s : State) (i : Nat) (w : Worker) : (s.goto i w).leave i = s.leave i := by
  cases ht : s.terminate <;> simp [State.leave, State.goto, ht]

/-- Where a worker was does not matter once it looks for work. -/
theorem look_goto (s : State) (i : Nat) (w : Worker) (gotTimeout : Bool) :
    (s.goto i w).look i gotTimeout = s.look i gotTimeout := by
  have hwork : (s.goto i w).work = s.work := rfl
  have hterminate : (s.goto i w).terminate = s.terminate := rfl
  unfold State.look
  rw [hwork, hterminate, leave_goto, goto_goto]
  cases s.work.getLast? with
  | some item => simp [State.goto]
  | none => rfl

/-- A worker moves, and does not end. -/
theorem Housed.goto (h : Housed s) (hi : s.worker i ≠ .at .ended) (hw : w ≠ .at .ended)
    (hasleep : s.terminate = true → w.isAsleep = false) : Housed (s.goto i w) := by
  refine ⟨fun j hj => ?_, h.nodup, fun j hj => ?_, fun j hj => ?_,
    fun ht => ⟨(h.terminated ht).1, fun j => ?_⟩, h.joined, h.gone⟩
  · have hji : j ≠ i := by
      rintro rfl
      exact hi (h.created j hj)
    rw [s.goto_worker_of_ne w hji]
    exact h.created j hj
  · by_cases hji : j = i
    · exact hji ▸ h.alive i hi
    · rw [s.goto_worker_of_ne w hji] at hj
      exact h.alive j hj
  · by_cases hji : j = i
    · subst hji
      simpa using hw
    · rw [s.goto_worker_of_ne w hji]
      exact h.listed j hj
  · by_cases hji : j = i
    · subst hji
      simpa using hasleep ht
    · rw [s.goto_worker_of_ne w hji]
      exact (h.terminated ht).2 j

/-- What no worker's place depends on has changed. -/
theorem Housed.same (h : Housed s) (hspawned : s'.spawned = s.spawned)
    (hworker : s'.worker = s.worker) (hthreads : s'.threads = s.threads)
    (hterminate : s'.terminate = s.terminate) (hjoining : s'.joining = s.joining)
    (hgone : s'.gone = s.gone) : Housed s' := by
  refine ⟨?_, ?_, ?_, ?_, ?_, ?_, ?_⟩
  · rw [hspawned, hworker]
    exact h.created
  · rw [hthreads]
    exact h.nodup
  · rw [hworker, hterminate, hjoining, hthreads]
    exact h.alive
  · rw [hthreads, hworker]
    exact h.listed
  · rw [hterminate, hthreads, hworker]
    exact h.terminated
  · rw [hterminate, hjoining]
    exact h.joined
  · rw [hgone, hterminate, hjoining]
    exact h.gone

/-- A worker that sleeps is woken. -/
theorem Pooled.wake (h : Pooled s) (hasleep : (s.worker i).isAsleep = true) (hw : OnWay w) :
    Pooled (s.goto i w) := by
  have hne : s.worker i ≠ .at .ended := by
    intro hi
    simp [hi] at hasleep
  have hnot : ¬OnWay (s.worker i) := fun ho => by simp [ho.not_asleep] at hasleep
  have hrunning : ¬Running (s.worker i) := by
    rintro ⟨_, hi⟩
    simp [hi] at hasleep
  obtain ⟨n, hn, hle⟩ := h.onWay
  exact ⟨h.housed.goto hne hw.ne_ended fun _ => hw.not_asleep,
    h.busy.stay (iff_of_false hw.not_running hrunning),
    ⟨n + 1, hn.enter hw hnot, fun _ _ => Nat.le_succ_of_le (hle i hasleep)⟩,
    fun _ => ⟨i, by simpa using hw.ne_ended⟩, h.reserved, h.atMost, h.atLeast, h.max, h.asserts⟩

/-! ## A worker looks for work -/

/-- It takes the oldest. -/
theorem Pooled.take {item : Nat} (h : Pooled s) (hi : OnWay (s.worker i)) (hwork : s.work ≠ []) :
    Pooled ({ s with
      work := s.work.dropLast
      busyThreads := s.busyThreads + 1
      started := s.started ++ [item] }.goto i (.at (.running item))) := by
  have hlength : 0 < s.work.length := List.length_pos_iff.mpr hwork
  obtain ⟨n, hn, hle⟩ := h.onWay
  have hpos := hn.pos hi
  have hhoused : Housed (s.goto i (.at (.running item))) :=
    h.housed.goto hi.ne_ended (by simp) fun _ => rfl
  refine ⟨hhoused.same rfl rfl rfl rfl rfl rfl,
    h.busy.enter (running_running item) hi.not_running,
    ⟨n - 1, hn.leave (onWay_running item) hi, fun j hj => ?_⟩,
    fun _ => ⟨i, by simp⟩, fun ht hs => ?_, h.atMost, h.atLeast, h.max, h.asserts⟩
  · have hji : j ≠ i := by
      rintro rfl
      simp at hj
    rw [State.goto_worker_of_ne _ _ hji] at hj
    have := hle j hj
    simp only [State.goto, List.length_dropLast]
    omega
  · have := h.reserved ht hs
    simp only [State.goto, List.length_dropLast]
    omega

/-- There is none, and it sleeps. -/
theorem Pooled.sleep {timed : Bool} (h : Pooled s) (hi : OnWay (s.worker i)) (hwork : s.work = [])
    (ht : s.terminate = false) : Pooled (s.goto i (.asleep timed)) := by
  obtain ⟨n, hn, hle⟩ := h.onWay
  refine ⟨h.housed.goto hi.ne_ended (by simp) fun ht' => absurd (ht.symm.trans ht') (by simp),
    h.busy.stay (iff_of_false (running_asleep timed) hi.not_running),
    ⟨n - 1, hn.leave (onWay_asleep timed) hi, fun j _ => ?_⟩,
    fun hne => absurd hwork hne, h.reserved, h.atMost, h.atLeast, h.max, h.asserts⟩
  simp [State.goto, hwork]

/-- There is none, and it leaves. -/
theorem Pooled.leave (h : Pooled s) (hi : OnWay (s.worker i)) (hwork : s.work = [])
    (hmin : s.terminate = false → s.minThreads < s.threads.length) : Pooled (s.leave i) := by
  obtain ⟨n, hn, hle⟩ := h.onWay
  have hbusy := h.busy.stay (iff_of_false running_ended hi.not_running)
  have honWay := hn.leave onWay_ended hi
  -- Whoever has not ended is another one.
  have hother (j : Nat) (hj : (s.goto i (.at .ended)).worker j ≠ .at .ended) :
      j ≠ i ∧ s.worker j ≠ .at .ended := by
    have hji : j ≠ i := by
      rintro rfl
      simp at hj
    exact ⟨hji, s.goto_worker_of_ne _ hji ▸ hj⟩
  have hcreated (j : Nat) (hj : s.spawned ≤ j) : (s.goto i (.at .ended)).worker j = .at .ended := by
    by_contra hne
    exact (hother j hne).2 (h.housed.created j hj)
  unfold State.leave
  split
  case isTrue ht =>
    obtain ⟨hthreads, hasleep⟩ := h.housed.terminated ht
    refine ⟨⟨hcreated, h.housed.nodup, fun j hj => h.housed.alive j (hother j hj).2,
        fun j hj => ?_, fun _ => ⟨hthreads, fun j => ?_⟩, h.housed.joined, h.housed.gone⟩, hbusy,
      ⟨n - 1, honWay, fun j _ => by simp [State.goto, hwork]⟩, fun hne => absurd hwork hne,
      h.reserved, h.atMost, h.atLeast, h.max, h.asserts⟩
    · rw [State.goto, hthreads] at hj
      cases hj
    · by_cases hji : j = i
      · subst hji
        simp
      · rw [s.goto_worker_of_ne _ hji]
        exact hasleep j
  case isFalse ht =>
    have ht : s.terminate = false := Bool.eq_false_iff.mpr ht
    have hmem : i ∈ s.threads := by simpa [ht] using h.housed.alive i hi.ne_ended
    have hlength : (s.threads.erase i).length = s.threads.length - 1 :=
      List.length_erase_of_mem hmem
    have hmin := hmin ht
    have halive (j : Nat) (hj : (s.goto i (.at .ended)).worker j ≠ .at .ended) :
        j ∈ s.threads.erase i := by
      obtain ⟨hji, hj⟩ := hother j hj
      refine (List.mem_erase_of_ne hji).mpr ?_
      simpa [ht] using h.housed.alive j hj
    refine ⟨⟨hcreated, h.housed.nodup.erase i, fun j hj => ?_, fun j hj => ?_,
        fun ht' => absurd (ht.symm.trans ht') (by simp), h.housed.joined, h.housed.gone⟩, hbusy,
      ⟨n - 1, honWay, fun j _ => by simp [State.goto, hwork]⟩, fun hne => absurd hwork hne,
      fun _ _ => .inl ?_, ?_, fun _ => ?_, h.max, ?_⟩
    · simp only [State.goto, ht, Bool.false_eq_true, if_false]
      exact halive j hj
    · obtain ⟨hji, hj⟩ := (List.Nodup.mem_erase_iff h.housed.nodup).mp hj
      rw [State.goto_worker_of_ne _ _ hji]
      exact h.housed.listed j hj
    · simp only [State.goto, hwork, List.length_nil, Nat.add_zero]
      refine hbusy.le_length fun j hj => halive j ?_
      obtain ⟨item, hj⟩ := hj
      exact fun hended => by simp [State.goto, hj] at hended
    · have := h.atMost
      simp only [State.goto]
      omega
    · simp only [State.goto]
      omega
    · simp [State.goto, hmem, h.asserts]

theorem Pooled.look {gotTimeout : Bool} (h : Pooled s) (hi : OnWay (s.worker i))
    (hmin : gotTimeout = true → s.minThreads < s.threads.length) :
    Pooled (s.look i gotTimeout) := by
  unfold State.look
  split
  case h_1 item hitem => exact h.take hi (by rintro hnil; simp [hnil] at hitem)
  case h_2 hnone =>
    have hwork : s.work = [] := List.getLast?_eq_none_iff.mp hnone
    split
    case isTrue hleave =>
      refine h.leave hi hwork fun ht => hmin ?_
      simpa [ht] using hleave
    case isFalse hstay =>
      simp only [Bool.or_eq_true, not_or, Bool.not_eq_true] at hstay
      exact h.sleep hi hwork hstay.2

/-- A worker is done with its work, and looks for more. -/
theorem Pooled.finish {item : Nat} (h : Pooled s) (hi : s.worker i = .at (.running item)) :
    Pooled (s.finish i item) := by
  have hne : s.worker i ≠ .at .ended := by simp [hi]
  have hhoused : Housed (s.goto i (.at .ready)) := h.housed.goto hne (by simp) fun _ => rfl
  have hrunning : Running (s.worker i) := ⟨item, hi⟩
  have hpos := h.busy.pos hrunning
  obtain ⟨n, hn, hle⟩ := h.onWay
  have hready : Pooled ({ s with
      busyThreads := s.busyThreads - 1
      finished := s.finished ++ [item] }.goto i (.at .ready)) := by
    refine ⟨hhoused.same rfl rfl rfl rfl rfl rfl, h.busy.leave running_ready hrunning,
      ⟨n + 1, hn.enter onWay_ready (by simp [hi]), fun j hj => ?_⟩,
      fun _ => ⟨i, by simp⟩, fun ht hs => ?_, h.atMost, h.atLeast, h.max, h.asserts⟩
    · have hji : j ≠ i := by
        rintro rfl
        simp at hj
      rw [State.goto_worker_of_ne _ _ hji] at hj
      exact Nat.le_succ_of_le (hle j hj)
    · have := h.reserved ht hs
      simp only [State.goto]
      omega
  have hlook : Pooled (State.look _ i false) := hready.look (by simp) (by rintro ⟨⟩)
  rwa [look_goto] at hlook

/-! ## More work -/

theorem Pooled.addThread (h : Pooled s) (ht : s.terminate = false)
    (hmax : s.threads.length < s.maxThreads) : Pooled s.addThread := by
  have hnew : s.worker s.spawned = .at .ended := h.housed.created _ (Nat.le_refl _)
  have hnotMem : s.spawned ∉ s.threads := fun hmem => h.housed.listed _ hmem hnew
  obtain ⟨n, hn, hle⟩ := h.onWay
  unfold State.addThread
  refine ⟨⟨fun j hj => ?_, ?_, fun j hj => ?_, fun j hj => ?_,
      fun ht' => absurd (ht.symm.trans ht') (by simp), h.housed.joined, h.housed.gone⟩,
    h.busy.stay (iff_of_false running_ready (by simp [hnew])),
    ⟨n + 1, hn.enter onWay_ready (by simp [hnew]), fun j hj => ?_⟩,
    fun _ => ⟨s.spawned, by simp⟩, fun ht hs => ?_, ?_, fun ht => ?_, h.max, h.asserts⟩
  · have hne : j ≠ s.spawned := Nat.ne_of_gt hj
    rw [State.goto_worker_of_ne _ _ hne]
    exact h.housed.created j (Nat.le_of_lt hj)
  · exact List.nodup_append.mpr ⟨h.housed.nodup, List.nodup_singleton _, fun j hj k hk => by
      rintro rfl
      exact hnotMem (List.mem_singleton.mp hk ▸ hj)⟩
  · simp only [State.goto, ht, Bool.false_eq_true, if_false, List.mem_append, List.mem_singleton]
    refine or_iff_not_imp_right.mpr fun hne => ?_
    rw [State.goto_worker_of_ne _ _ hne] at hj
    simpa [ht] using h.housed.alive j hj
  · rcases List.mem_append.mp hj with hj | hj
    · have hne : j ≠ s.spawned := fun heq => hnotMem (heq ▸ hj)
      rw [State.goto_worker_of_ne _ _ hne]
      exact h.housed.listed j hj
    · rw [List.mem_singleton.mp hj]
      simp
  · have hne : j ≠ s.spawned := by
      rintro rfl
      simp at hj
    rw [State.goto_worker_of_ne _ _ hne] at hj
    exact Nat.le_succ_of_le (hle j hj)
  · have := h.reserved ht hs
    simp only [State.goto, List.length_append, List.length_singleton]
    omega
  · simp only [State.goto, List.length_append, List.length_singleton]
    omega
  · have := h.atLeast ht
    simp only [State.goto, List.length_append, List.length_singleton]
    omega

/-- The new thread does not sleep. -/
theorem Pooled.signals_addThread {woken : Option Nat} (h : Pooled s) (hwoken : s.Signals woken) :
    s.addThread.Signals woken := by
  have hnew : s.worker s.spawned = .at .ended := h.housed.created _ (Nat.le_refl _)
  cases woken with
  | none =>
    intro j hj
    by_cases hne : j = s.spawned
    · subst hne
      simp [State.addThread]
    · have hne' : j < s.spawned := Nat.lt_of_le_of_ne (Nat.le_of_lt_succ hj) hne
      simpa [State.addThread, State.goto_worker_of_ne _ _ hne] using hwoken j hne'
  | some i =>
    have hasleep : (s.worker i).isAsleep = true := hwoken
    have hne : i ≠ s.spawned := by
      rintro rfl
      simp [hnew] at hasleep
    show (s.addThread.worker i).isAsleep = true
    simpa [State.addThread, State.goto_worker_of_ne _ _ hne] using hasleep

/-- One of those that sleep is told. -/
theorem Pooled.insert {woken : Option Nat} (h : Pooled s) (hwoken : s.Signals woken)
    (hthreads : 0 < s.threads.length)
    (hreserved : s.short = false →
      s.busyThreads + s.work.length + 1 ≤ s.threads.length ∨ s.maxThreads ≤ s.threads.length) :
    Pooled (s.insert woken) := by
  obtain ⟨n, hn, hle⟩ := h.onWay
  obtain ⟨t, hmem⟩ := List.length_pos_iff_exists_mem.mp hthreads
  have hmanned : s.worker t ≠ .at .ended := h.housed.listed t hmem
  have hlength (hs : s.short = false) :
      s.busyThreads + (s.accepted :: s.work).length ≤ s.threads.length ∨
        s.maxThreads ≤ s.threads.length := by
    rw [List.length_cons]
    exact hreserved hs
  cases woken with
  | none =>
    -- Nobody sleeps.
    have hnobody (j : Nat) : (s.worker j).isAsleep = false := by
      by_cases hj : j < s.spawned
      · exact hwoken j hj
      · rw [h.housed.created j (Nat.le_of_not_lt hj)]
        rfl
    exact ⟨h.housed.same rfl rfl rfl rfl rfl rfl, h.busy,
      ⟨n, hn, fun j hj => absurd ((hnobody j).symm.trans hj) (by simp)⟩, fun _ => ⟨t, hmanned⟩,
      fun _ => hlength, h.atMost, h.atLeast, h.max, h.asserts⟩
  | some i =>
    have hasleep : (s.worker i).isAsleep = true := hwoken
    have hwake := h.wake hasleep (onWay_of_asleep hasleep)
    have hnot : ¬OnWay (s.worker i) := fun ho => by simp [ho.not_asleep] at hasleep
    refine ⟨hwake.housed.same rfl rfl rfl rfl rfl rfl, hwake.busy,
      ⟨n + 1, hn.enter (onWay_of_asleep hasleep) hnot, fun j _ => ?_⟩,
      fun _ => ⟨i, by simpa [State.insert, State.signal] using (onWay_of_asleep hasleep).ne_ended⟩,
      fun _ => hlength, h.atMost, h.atLeast, h.max, h.asserts⟩
    exact Nat.succ_le_succ (hle i hasleep)

theorem Pooled.add {allowQueue spawns : Bool} {woken : Option Nat} (h : Pooled s)
    (ht : s.terminate = false) (hwoken : s.Signals woken) :
    Pooled (s.add allowQueue spawns woken) := by
  have hmax := h.max
  unfold State.add
  split
  case isTrue hlacks =>
    split
    case isTrue =>
      have hadded := h.addThread ht hlacks.2
      refine hadded.insert (h.signals_addThread hwoken) ?_ fun hs => ?_
      · simp [State.addThread, State.goto]
      · have := h.reserved ht hs
        simp only [State.addThread, State.goto, List.length_append, List.length_singleton]
        omega
    case isFalse =>
    split
    case isTrue hallow =>
      have hshort : Pooled { s with short := true } :=
        ⟨h.housed.same rfl rfl rfl rfl rfl rfl, h.busy, h.onWay, h.manned, (by rintro - ⟨⟩),
          h.atMost, h.atLeast, h.max, h.asserts⟩
      exact hshort.insert (by cases woken <;> exact hwoken) hallow.2 (by rintro ⟨⟩)
    case isFalse => exact h
  case isFalse hlacks =>
    have hroom : ¬(s.busyThreads + s.work.length + 1 > s.threads.length ∧
      s.threads.length < s.maxThreads) := hlacks
    exact h.insert hwoken (by omega) fun _ => by omega

/-! ## The destructor -/

theorem Pooled.destroy (h : Pooled s) (ht : s.terminate = false) : Pooled s.destroy := by
  have hended (j : Nat) : (s.worker j).wake = .at .ended ↔ s.worker j = .at .ended := by
    simp
  obtain ⟨n, hn, hle⟩ := h.onWay
  have hbusy : Counts Running s.destroy.worker s.busyThreads :=
    h.busy.congr fun j => running_wake
  -- Whoever has slept is on its way.
  obtain ⟨m, hm⟩ : ∃ m, Counts OnWay s.destroy.worker m := by
    classical
    refine ⟨_, (Finset.range s.spawned).filter (fun j => OnWay (s.destroy.worker j)), fun j => ?_,
      rfl⟩
    rw [Finset.mem_filter, Finset.mem_range]
    refine and_iff_right_of_imp fun hj => Nat.lt_of_not_le fun hle => hj.ne_ended ?_
    exact (hended j).mpr (h.housed.created j hle)
  refine ⟨⟨fun j hj => (hended j).mpr (h.housed.created j hj), List.nodup_nil, fun j hj => ?_,
      by rintro _ ⟨⟩, fun _ => ⟨rfl, fun j => (s.worker j).isAsleep_wake⟩, by rintro ⟨⟩,
      fun hg => ?_⟩, hbusy,
    ⟨m, hm, fun j hj => ?_⟩, fun hwork => ?_, by rintro ⟨⟩, Nat.zero_le _, by rintro ⟨⟩, h.max,
    h.asserts⟩
  · have := h.housed.alive j fun hj' => hj ((hended j).mpr hj')
    simpa [State.destroy, ht] using this
  · have := (h.housed.gone hg).1
    simp [ht] at this
  · simp [State.destroy] at hj
  · obtain ⟨j, hj⟩ := h.manned hwork
    exact ⟨j, fun hj' => hj ((hended j).mp hj')⟩

/-- The thread that is joined next has ended. -/
theorem Pooled.join {t : Nat} {ts : List Nat} (h : Pooled s) (hjoining : s.joining = t :: ts)
    (ht : s.worker t = .at .ended) : Pooled { s with joining := ts } := by
  have hterminate : s.terminate = true := by
    cases hs : s.terminate
    · have := h.housed.joined hs
      simp [hjoining] at this
    · rfl
  refine ⟨⟨h.housed.created, h.housed.nodup, fun j hj => ?_, h.housed.listed, h.housed.terminated,
      fun hs => absurd (hterminate.symm.trans hs) (by simp), fun hg => ?_⟩, h.busy, h.onWay,
    h.manned, h.reserved, h.atMost, h.atLeast, h.max, h.asserts⟩
  · have hmem := h.housed.alive j hj
    simp only [hterminate, if_true, hjoining, List.mem_cons] at hmem ⊢
    exact hmem.resolve_left fun hjt => hj (hjt ▸ ht)
  · have := (h.housed.gone hg).2
    simp [hjoining] at this

/-- All threads have ended, so no work is left. -/
theorem Pooled.work_eq_nil (h : Pooled s) (ht : s.terminate = true) (hjoining : s.joining = []) :
    s.work = [] ∧ ∀ i, s.worker i = .at .ended := by
  have hended (i : Nat) : s.worker i = .at .ended := by
    by_contra hi
    have := h.housed.alive i hi
    simp [ht, hjoining] at this
  refine ⟨?_, hended⟩
  by_contra hwork
  obtain ⟨i, hi⟩ := h.manned hwork
  exact hi (hended i)

/-! ## Runs -/

theorem pooled_of_init (h : pool.init s) : Pooled s := by
  obtain ⟨init, min, max, hinit, hmin, hmax, rfl⟩ := h
  have hcreated (i : Nat) (hi : ¬i < init) :
      (State.create init min max).worker i = .at .ended := by
    simp [State.create, hi]
  have hready (i : Nat) (hi : i < init) : (State.create init min max).worker i = .at .ready := by
    simp [State.create, hi]
  refine ⟨⟨fun i hi => hcreated i (Nat.not_lt.mpr hi), List.nodup_range, fun i hi => ?_,
      fun i hi => ?_, by rintro ⟨⟩, fun _ => rfl, by rintro ⟨⟩⟩, counts_zero fun i => ?_,
    ⟨init, ⟨Finset.range init, fun i => ?_, Finset.card_range init⟩, fun i hi => ?_⟩,
    fun hwork => absurd rfl hwork, fun _ _ => .inl (Nat.zero_le _), ?_, fun _ => ?_, hmax, rfl⟩
  · refine List.mem_range.mpr ?_
    by_contra hlt
    exact hi (hcreated i hlt)
  · rw [hready i (List.mem_range.mp hi)]
    simp
  · by_cases hi : i < init
    · simp [hready i hi]
    · simp [hcreated i hi]
  · by_cases hi : i < init
    · simp [hready i hi, hi]
    · simp [hcreated i hi, hi]
  · simp [State.create] at hi ⊢
  · simp only [State.create, List.length_range]
    omega
  · simp [State.create]

theorem pooled_of_step {l : Label} (hstep : step s l = some s') (h : Pooled s) : Pooled s' := by
  cases l <;> simp only [step, Option.ite_none_right_eq_some, Option.ite_none_left_eq_some,
    Option.some.injEq] at hstep
  case add =>
    obtain ⟨⟨ht, hwoken⟩, rfl⟩ := hstep
    exact h.add (by simpa using ht) hwoken
  case worker i =>
    split at hstep
    case h_1 hi =>
      cases hstep
      exact h.look (by simp [hi]) (by rintro ⟨⟩)
    case h_2 hi =>
      cases hstep
      exact h.look (by simp [hi]) (by rintro ⟨⟩)
    case h_3 hi =>
      cases hstep
      exact h.finish hi
    all_goals cases hstep
  case timeout i =>
    split at hstep
    case h_1 hi =>
      cases hstep
      have hwoken : Pooled (s.goto i (.woken true)) := h.wake (by simp [hi]) (onWay_woken true)
      rw [← look_goto s i (.woken true)]
      exact hwoken.look (by simp) fun hmin => of_decide_eq_true hmin
    case h_2 => cases hstep
  case wakeWorker i =>
    split at hstep
    case h_1 hi =>
      cases hstep
      exact h.wake (by simp [hi]) (by simp [hi])
    case h_2 => cases hstep
  case destroy =>
    obtain ⟨ht, rfl⟩ := hstep
    exact h.destroy (Bool.eq_false_iff.mpr ht)
  case join =>
    split at hstep
    case h_1 hjoining =>
      simp only [Option.ite_none_right_eq_some, Option.some.injEq] at hstep
      obtain ⟨ht, rfl⟩ := hstep
      exact h.join hjoining ht
    case h_2 => cases hstep
  case free =>
    obtain ⟨⟨ht, hjoining, -⟩, rfl⟩ := hstep
    refine ⟨⟨h.housed.created, h.housed.nodup, h.housed.alive, h.housed.listed,
      h.housed.terminated, h.housed.joined, fun _ => ⟨ht, hjoining⟩⟩, h.busy, h.onWay, h.manned,
      h.reserved, h.atMost, h.atLeast, h.max, ?_⟩
    simp [h.asserts, (h.work_eq_nil ht hjoining).1, (h.housed.terminated ht).1]

theorem pooled_of_reachable (h : pool.Reachable s) : Pooled s :=
  h.invariant (fun _ => pooled_of_init) fun _ _ _ hp _ hstep => pooled_of_step hstep hp

/-- No worker sleeps while there is more work than there are workers on their way to it. What was
    accepted has a worker of its own, unless there are as many as there may be or one could not be
    created. And once there were as many workers as the pool should keep, there are never fewer,
    though it need not be the first ones that stay. -/
theorem staffed_of_reachable (h : pool.Reachable s) :
    s.failed = false ∧ Counts Running s.worker s.busyThreads ∧
      (∃ n, Counts OnWay s.worker n ∧ ∀ i, (s.worker i).isAsleep = true → s.work.length ≤ n) ∧
      s.threads.length ≤ s.maxThreads ∧
      (s.terminate = false → min s.minThreads s.spawned ≤ s.threads.length ∧
        (s.short = false → s.busyThreads + s.work.length ≤ s.threads.length ∨
          s.threads.length = s.maxThreads)) := by
  have hp := pooled_of_reachable h
  refine ⟨hp.asserts, hp.busy, hp.onWay, hp.atMost, fun ht => ⟨hp.atLeast ht, fun hs => ?_⟩⟩
  exact (hp.reserved ht hs).imp_right fun hmax => Nat.le_antisymm hp.atMost hmax

/-- One of two workers sleeps while the other works, and is woken for more. -/
theorem staffed_after_signal : ∃ s : State, s.threads = [0, 1] ∧ s.busyThreads = 1 ∧
    s.work = [2] ∧ Counts Running s.worker 1 := by
  obtain ⟨s, hs, htest⟩ := Machine.Reachable.exec_any
    (.init ⟨0, 2, 3, by decide, by decide, by decide, rfl⟩ : pool.Reachable (.create 0 2 3))
    [.add true true none, .worker 0, .add true true none, .worker 1, .worker 1,
      .add true true (some 1)]
    (p := fun s => decide (s.threads = [0, 1] ∧ s.busyThreads = 1 ∧ s.work = [2]))
    (by decide +kernel)
  obtain ⟨hthreads, hbusy, hwork⟩ := of_decide_eq_true htest
  exact ⟨s, hthreads, hbusy, hwork, hbusy ▸ (staffed_of_reachable hs).2.1⟩

end ThreadPool
