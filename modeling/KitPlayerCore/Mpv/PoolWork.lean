-- SUMMARY: That the thread pool does all work that it accepts, once and in turn, and that its destruction comes to an end.
import KitPlayerCore.Mpv.PoolWorkers
import Mathlib.Algebra.BigOperators.Group.Finset.Basic
import Mathlib.Algebra.Order.BigOperators.Group.Finset

/-!
# Work

Work is put in front and taken from behind. A worker does not leave before there is none, and the
destructor waits for the workers, so that nothing is dropped.
-/

namespace ThreadPool

open Transition

variable {s s' : State} {i : Nat} {w : Worker}

/-- What was accepted is started in turn, and each item is finished once. -/
structure InTurn (s : State) : Prop where
  order : s.started ++ s.work.reverse = List.range s.accepted
  running : ∀ i x, s.worker i = .at (.running x) → x ∈ s.started ∧ x ∉ s.finished
  alone : ∀ i j x, s.worker i = .at (.running x) → s.worker j = .at (.running x) → i = j
  nodup : s.finished.Nodup
  finished : s.finished ⊆ s.started
  done : ∀ x ∈ s.started, x ∈ s.finished ∨ ∃ i, s.worker i = .at (.running x)

/-- A step that no item takes part in. -/
structure Aside (s s' : State) : Prop where
  work : s'.work = s.work
  accepted : s'.accepted = s.accepted
  started : s'.started = s.started
  finished : s'.finished = s.finished
  running : ∀ i x, s'.worker i = .at (.running x) ↔ s.worker i = .at (.running x)

theorem InTurn.aside (h : InTurn s) (ha : Aside s s') : InTurn s' := by
  refine ⟨?_, fun i x hi => ?_, fun i j x hi hj => ?_, ?_, ?_, fun x hx => ?_⟩
  · rw [ha.started, ha.work, ha.accepted]
    exact h.order
  · rw [ha.started, ha.finished]
    exact h.running i x ((ha.running i x).mp hi)
  · exact h.alone i j x ((ha.running i x).mp hi) ((ha.running j x).mp hj)
  · rw [ha.finished]
    exact h.nodup
  · rw [ha.finished, ha.started]
    exact h.finished
  · rw [ha.started] at hx
    rw [ha.finished]
    exact (h.done x hx).imp_right fun ⟨i, hi⟩ => ⟨i, (ha.running i x).mpr hi⟩

theorem Aside.goto (hi : ¬Running (s.worker i)) (hw : ¬Running w) : Aside s (s.goto i w) := by
  refine ⟨rfl, rfl, rfl, rfl, fun j x => ?_⟩
  by_cases hji : j = i
  · subst hji
    rw [State.goto_worker_self]
    exact iff_of_false (fun h => hw ⟨x, h⟩) fun h => hi ⟨x, h⟩
  · rw [s.goto_worker_of_ne w hji]

theorem Aside.leave (hi : ¬Running (s.worker i)) : Aside s (s.leave i) := by
  have hgoto := Aside.goto hi running_ended
  unfold State.leave
  split
  · exact hgoto
  · exact ⟨rfl, rfl, rfl, rfl, hgoto.running⟩

/-- The oldest item is started. -/
theorem InTurn.take {item : Nat} (h : InTurn s) (hi : ¬Running (s.worker i))
    (hitem : s.work.getLast? = some item) :
    InTurn ({ s with
      work := s.work.dropLast
      busyThreads := s.busyThreads + 1
      started := s.started ++ [item] }.goto i (.at (.running item))) := by
  have hwork : s.work.reverse = item :: s.work.dropLast.reverse := by
    obtain ⟨ys, hys⟩ := List.getLast?_eq_some_iff.mp hitem
    rw [hys, List.dropLast_concat, List.reverse_append]
    rfl
  have hnew : item ∉ s.started := by
    have hnodup : (s.started ++ s.work.reverse).Nodup := h.order ▸ List.nodup_range
    rw [hwork] at hnodup
    exact fun hmem => (List.disjoint_of_nodup_append hnodup) hmem List.mem_cons_self
  have hworker (j x : Nat)
      (hj : (s.goto i (.at (.running item))).worker j = .at (.running x)) :
      j = i ∧ x = item ∨ j ≠ i ∧ s.worker j = .at (.running x) := by
    by_cases hji : j = i
    · subst hji
      rw [State.goto_worker_self] at hj
      cases hj
      exact .inl ⟨rfl, rfl⟩
    · rw [s.goto_worker_of_ne _ hji] at hj
      exact .inr ⟨hji, hj⟩
  refine ⟨?_, fun j x hj => ?_, fun j k x hj hk => ?_, h.nodup,
    fun x hx => List.mem_append_left _ (h.finished hx), fun x hx => ?_⟩
  · simp only [State.goto]
    rw [List.append_assoc, List.singleton_append, ← hwork]
    exact h.order
  · obtain ⟨rfl, rfl⟩ | ⟨-, hj⟩ := hworker j x hj
    · exact ⟨List.mem_append_right _ List.mem_cons_self, fun hx => hnew (h.finished hx)⟩
    · exact ⟨List.mem_append_left _ (h.running j x hj).1, (h.running j x hj).2⟩
  · rcases hworker j x hj with ⟨hji, hxj⟩ | ⟨-, hj'⟩ <;>
      rcases hworker k x hk with ⟨hki, hxk⟩ | ⟨-, hk'⟩
    · rw [hji, hki]
    · exact absurd (hxj ▸ (h.running k x hk').1) hnew
    · exact absurd (hxk ▸ (h.running j x hj').1) hnew
    · exact h.alone j k x hj' hk'
  · rcases List.mem_append.mp hx with hx | hx
    · rcases h.done x hx with hfinished | ⟨j, hj⟩
      · exact .inl hfinished
      · have hji : j ≠ i := by
          rintro rfl
          exact hi ⟨x, hj⟩
        refine .inr ⟨j, ?_⟩
        rw [State.goto_worker_of_ne _ _ hji]
        exact hj
    · rw [List.mem_singleton.mp hx]
      exact .inr ⟨i, State.goto_worker_self ..⟩

theorem InTurn.look {gotTimeout : Bool} (h : InTurn s) (hi : ¬Running (s.worker i)) :
    InTurn (s.look i gotTimeout) := by
  unfold State.look
  split
  case h_1 item hitem => exact h.take hi hitem
  case h_2 =>
    split
    · exact h.aside (.leave hi)
    · exact h.aside (.goto hi (running_asleep _))

/-- An item is finished. -/
theorem InTurn.finish {item : Nat} (h : InTurn s) (hi : s.worker i = .at (.running item)) :
    InTurn (s.finish i item) := by
  obtain ⟨hstarted, hnew⟩ := h.running i item hi
  have hother (j x : Nat) (hj : (s.goto i (.at .ready)).worker j = .at (.running x)) :
      s.worker j = .at (.running x) ∧ x ≠ item := by
    have hji : j ≠ i := by
      rintro rfl
      simp at hj
    rw [s.goto_worker_of_ne _ hji] at hj
    exact ⟨hj, fun hx => hji (h.alone j i item (hx ▸ hj) hi)⟩
  have hready : InTurn ({ s with
      busyThreads := s.busyThreads - 1
      finished := s.finished ++ [item] }.goto i (.at .ready)) := by
    refine ⟨h.order, fun j x hj => ?_, fun j k x hj hk => ?_, ?_, fun x hx => ?_, fun x hx => ?_⟩
    · obtain ⟨hj, hx⟩ := hother j x hj
      refine ⟨(h.running j x hj).1, fun hmem => ?_⟩
      exact (List.mem_append.mp hmem).elim (h.running j x hj).2 fun hmem =>
        hx (List.mem_singleton.mp hmem)
    · exact h.alone j k x (hother j x hj).1 (hother k x hk).1
    · exact List.nodup_append.mpr ⟨h.nodup, List.nodup_singleton _, fun x hx y hy => by
        rintro rfl
        exact hnew (List.mem_singleton.mp hy ▸ hx)⟩
    · exact (List.mem_append.mp hx).elim (fun hx => h.finished hx) fun hx =>
        List.mem_singleton.mp hx ▸ hstarted
    · by_cases hxi : x = item
      · exact .inl (hxi ▸ List.mem_append_right _ List.mem_cons_self)
      · rcases h.done x hx with hfinished | ⟨j, hj⟩
        · exact .inl (List.mem_append_left _ hfinished)
        · have hji : j ≠ i := by
            rintro rfl
            rw [hi] at hj
            cases hj
            exact hxi rfl
          refine .inr ⟨j, ?_⟩
          rw [State.goto_worker_of_ne _ _ hji]
          exact hj
  have hlook : InTurn (State.look _ i false) := hready.look (by simp)
  rwa [look_goto] at hlook

/-- The signal starts nothing. -/
theorem Aside.signal {woken : Option Nat} (hwoken : s.Signals woken) :
    Aside s (s.signal woken) := by
  cases woken with
  | none => exact ⟨rfl, rfl, rfl, rfl, fun _ _ => Iff.rfl⟩
  | some i =>
    have hasleep : (s.worker i).isAsleep = true := hwoken
    have hi : ¬Running (s.worker i) := by
      rintro ⟨x, hi⟩
      simp [hi] at hasleep
    exact .goto hi (by rwa [running_wake])

theorem InTurn.insert {woken : Option Nat} (h : InTurn s) (hwoken : s.Signals woken) :
    InTurn (s.insert woken) := by
  have hadded : InTurn { s with work := s.accepted :: s.work, accepted := s.accepted + 1 } := by
    refine ⟨?_, h.running, h.alone, h.nodup, h.finished, h.done⟩
    rw [List.reverse_cons, ← List.append_assoc, h.order, List.range_succ]
  exact hadded.aside (.signal (by cases woken <;> exact hwoken))

theorem InTurn.add {allowQueue spawns : Bool} {woken : Option Nat} (h : InTurn s)
    (hp : Pooled s) (hwoken : s.Signals woken) : InTurn (s.add allowQueue spawns woken) := by
  unfold State.add
  split
  · split
    · have hnew : s.worker s.spawned = .at .ended := hp.housed.created _ (Nat.le_refl _)
      have hready : Aside s (s.goto s.spawned (.at .ready)) :=
        .goto (by simp [hnew]) running_ready
      have hadded : InTurn s.addThread :=
        h.aside ⟨rfl, rfl, rfl, rfl, hready.running⟩
      exact hadded.insert (hp.signals_addThread hwoken)
    · split
      · have hshort : InTurn { s with short := true } :=
          h.aside ⟨rfl, rfl, rfl, rfl, fun _ _ => Iff.rfl⟩
        exact hshort.insert (by cases woken <;> exact hwoken)
      · exact h
  · exact h.insert hwoken

theorem inTurn_of_step {l : Label} (hstep : step s l = some s') (hp : Pooled s) (h : InTurn s) :
    InTurn s' := by
  cases l <;> simp only [step, Option.ite_none_right_eq_some, Option.ite_none_left_eq_some,
    Option.some.injEq] at hstep
  case add =>
    obtain ⟨⟨-, hwoken⟩, rfl⟩ := hstep
    exact h.add hp hwoken
  case worker i =>
    split at hstep
    case h_1 hi =>
      cases hstep
      exact h.look (by simp [hi])
    case h_2 hi =>
      cases hstep
      exact h.look (by simp [hi])
    case h_3 hi =>
      cases hstep
      exact h.finish hi
    all_goals cases hstep
  case timeout i =>
    split at hstep
    case h_1 hi =>
      cases hstep
      exact h.look (by simp [hi])
    case h_2 => cases hstep
  case wakeWorker i =>
    split at hstep
    case h_1 hi =>
      cases hstep
      exact h.aside (.goto (by simp [hi]) (by simp [hi]))
    case h_2 => cases hstep
  case destroy =>
    obtain ⟨-, rfl⟩ := hstep
    exact h.aside ⟨rfl, rfl, rfl, rfl, fun _ _ => Place.wake_eq_at⟩
  case join =>
    split at hstep
    case h_1 =>
      simp only [Option.ite_none_right_eq_some, Option.some.injEq] at hstep
      obtain ⟨-, rfl⟩ := hstep
      exact h.aside ⟨rfl, rfl, rfl, rfl, fun _ _ => Iff.rfl⟩
    case h_2 => cases hstep
  case free =>
    obtain ⟨-, rfl⟩ := hstep
    exact h.aside ⟨rfl, rfl, rfl, rfl, fun _ _ => Iff.rfl⟩

theorem inTurn_of_init (h : pool.init s) : InTurn s := by
  obtain ⟨init, min, max, -, -, -, rfl⟩ := h
  have hnot (i x : Nat) : (State.create init min max).worker i ≠ .at (.running x) := by
    simp only [State.create]
    split <;> simp
  exact ⟨rfl, fun i x hi => absurd hi (hnot i x), fun i _ x hi => absurd hi (hnot i x),
    List.nodup_nil, List.nil_subset _, by rintro x ⟨⟩⟩

theorem inTurn_of_reachable (h : pool.Reachable s) : InTurn s :=
  h.invariant_of (fun _ => pooled_of_reachable) (fun _ => inTurn_of_init)
    fun _ _ _ hp hi _ hstep => inTurn_of_step hstep hp hi

/-- If no work is waiting or running, then all that was accepted is done. -/
theorem InTurn.perm (h : InTurn s) (hwork : s.work = [])
    (hnone : ∀ i x, s.worker i ≠ .at (.running x)) : s.finished.Perm (List.range s.accepted) := by
  have horder := h.order
  rw [hwork, List.reverse_nil, List.append_nil] at horder
  refine (List.perm_ext_iff_of_nodup h.nodup List.nodup_range).mpr fun x => ?_
  rw [← horder]
  exact ⟨fun hx => h.finished hx, fun hx => (h.done x hx).resolve_right fun ⟨i, hi⟩ => hnone i x hi⟩

/-- What the pool accepts is started in the order in which it was accepted, and each item is
    finished once. When the destructor has returned, all of it is done, and no worker is left. -/
theorem doneInTurn_of_reachable (h : pool.Reachable s) :
    s.started ++ s.work.reverse = List.range s.accepted ∧ s.finished.Nodup ∧
      s.finished ⊆ s.started ∧
      (s.gone = true → s.finished.Perm (List.range s.accepted) ∧
        ∀ i, s.worker i = .at .ended) := by
  have hp := pooled_of_reachable h
  have hi := inTurn_of_reachable h
  refine ⟨hi.order, hi.nodup, hi.finished, fun hg => ?_⟩
  obtain ⟨ht, hjoining⟩ := hp.housed.gone hg
  obtain ⟨hwork, hended⟩ := hp.work_eq_nil ht hjoining
  refine ⟨hi.perm hwork fun i x hx => ?_, hended⟩
  simp [hended i] at hx

/-- Two workers finish three items, the last of them while the pool is destroyed. -/
theorem doneInTurn_after_destroy : ∃ s : State, s.gone = true ∧ s.finished = [1, 0, 2] ∧
    s.finished.Perm (List.range s.accepted) := by
  obtain ⟨s, hs, htest⟩ := Machine.Reachable.exec_any
    (.init ⟨0, 1, 2, by decide, by decide, by decide, rfl⟩ : pool.Reachable (.create 0 1 2))
    [.add true true none, .worker 0, .add true true none, .worker 1, .add true true none,
      .destroy, .worker 1, .worker 0, .join, .worker 1, .join, .free]
    (p := fun s => decide (s.gone = true ∧ s.finished = [1, 0, 2])) (by decide +kernel)
  obtain ⟨hgone, hfinished⟩ := of_decide_eq_true htest
  exact ⟨s, hgone, hfinished, ((doneInTurn_of_reachable hs).2.2.2 hgone).1⟩

/-! ## Progress -/

/-- A worker goes on, or the destructor does. A worker that runs an item goes on when the item
    returns. Nothing is added, and no timeout is needed. -/
def GoesOn : Label → Prop
  | .worker _ | .join | .free => True
  | _ => False

/-- All work is done. The workers that are left sleep, and if the pool is destroyed then it is
    gone. -/
structure Rests (s : State) : Prop where
  work : s.work = []
  finished : s.finished.Perm (List.range s.accepted)
  workers : ∀ i, (s.worker i).isAsleep = true ∨ s.worker i = .at .ended
  gone : s.terminate = true → s.gone = true

/-- Whether the worker has something left to do. -/
def weight : Worker → Nat
  | .asleep _ | .at .ended => 0
  | _ => 1

/-- How much the workers and the destructor have left to do. -/
def State.load (s : State) : Nat :=
  s.work.length + (∑ i ∈ Finset.range s.spawned, weight (s.worker i)) + s.joining.length +
    (!s.gone).toNat

theorem load_goto (hi : i < s.spawned) :
    (s.goto i w).load + weight (s.worker i) = s.load + weight w := by
  have hmem : i ∈ Finset.range s.spawned := Finset.mem_range.mpr hi
  have hrest : ∑ j ∈ (Finset.range s.spawned).erase i, weight ((s.goto i w).worker j) =
      ∑ j ∈ (Finset.range s.spawned).erase i, weight (s.worker j) :=
    Finset.sum_congr rfl fun j hj => by rw [s.goto_worker_of_ne w (Finset.ne_of_mem_erase hj)]
  have hafter := Finset.add_sum_erase _ (fun j => weight ((s.goto i w).worker j)) hmem
  have hbefore := Finset.add_sum_erase _ (fun j => weight (s.worker j)) hmem
  simp only [State.goto_worker_self] at hafter
  simp only [State.load, show (s.goto i w).work = s.work from rfl,
    show (s.goto i w).spawned = s.spawned from rfl, show (s.goto i w).joining = s.joining from rfl,
    show (s.goto i w).gone = s.gone from rfl]
  omega

/-- A worker that looks for work has less left to do. -/
theorem load_look {gotTimeout : Bool} (hi : i < s.spawned) (hweight : weight (s.worker i) = 1) :
    (s.look i gotTimeout).load < s.load := by
  have hended : (s.goto i (.at .ended)).load < s.load := by
    have : _ = s.load + 0 := load_goto (w := .at .ended) hi
    omega
  unfold State.look
  split
  case h_1 item hitem =>
    have hwork : s.work ≠ [] := by
      rintro hnil
      simp [hnil] at hitem
    have hlength : 0 < s.work.length := List.length_pos_iff.mpr hwork
    have : _ = s.load + 1 := load_goto (w := .at (.running item)) hi
    simp only [State.load, State.goto, List.length_dropLast] at this ⊢
    omega
  case h_2 =>
    split
    · unfold State.leave
      split <;> exact hended
    · have : _ = s.load + 0 := load_goto (w := .asleep (s.minThreads < s.threads.length)) hi
      omega

theorem load_of_step {l : Label} (hl : GoesOn l) (hp : Pooled s) (hstep : step s l = some s') :
    s'.load < s.load := by
  have hspawned (i : Nat) (hi : s.worker i ≠ .at .ended) : i < s.spawned :=
    Nat.lt_of_not_le fun hle => hi (hp.housed.created i hle)
  cases l <;> try exact hl.elim
  case worker i =>
    simp only [step] at hstep
    split at hstep
    case h_1 hi =>
      cases hstep
      exact load_look (hspawned i (by simp [hi])) (by rw [hi]; rfl)
    case h_2 hi =>
      cases hstep
      exact load_look (hspawned i (by simp [hi])) (by rw [hi]; rfl)
    case h_3 item hi =>
      cases hstep
      have hlook : (State.look _ i false).load < _ :=
        load_look (s := { s with
          busyThreads := s.busyThreads - 1
          finished := s.finished ++ [item] }) (hspawned i (by simp [hi])) (by rw [hi]; rfl)
      exact hlook
    all_goals cases hstep
  case join =>
    simp only [step] at hstep
    split at hstep
    case h_1 hjoining =>
      simp only [Option.ite_none_right_eq_some, Option.some.injEq] at hstep
      obtain ⟨-, rfl⟩ := hstep
      simp only [State.load, hjoining, List.length_cons]
      omega
    case h_2 => cases hstep
  case free =>
    simp only [step, Option.ite_none_right_eq_some, Option.some.injEq] at hstep
    obtain ⟨⟨-, -, hgone⟩, rfl⟩ := hstep
    simp only [Bool.not_eq_eq_eq_not, Bool.not_true] at hgone
    simp [State.load, hgone]

/-- As long as the pool does not rest, a worker or the destructor can go on. -/
theorem rests_or_goesOn (hp : Pooled s) (hi : InTurn s) :
    Rests s ∨ ∃ l s', GoesOn l ∧ step s l = some s' := by
  by_cases hquiet : ∀ i, (s.worker i).isAsleep = true ∨ s.worker i = .at .ended
  case neg =>
    -- Some worker neither sleeps nor has ended.
    obtain ⟨i, hi⟩ := not_forall.mp hquiet
    obtain ⟨hasleep, hended⟩ := not_or.mp hi
    refine .inr ⟨.worker i, ?_⟩
    simp only [step]
    rcases hw : s.worker i with (_ | item | _) | timed | timed
    · exact ⟨_, trivial, rfl⟩
    · exact ⟨_, trivial, rfl⟩
    · exact absurd hw hended
    · simp [hw] at hasleep
    · exact ⟨_, trivial, rfl⟩
  case pos =>
    have hnotOnWay (i : Nat) : ¬OnWay (s.worker i) := fun ho =>
      (hquiet i).elim (fun h => by simp [ho.not_asleep] at h) ho.ne_ended
    have hwork : s.work = [] := by
      by_contra hwork
      obtain ⟨i, hne⟩ := hp.manned hwork
      obtain ⟨n, hn, hle⟩ := hp.onWay
      have hpos : 0 < n :=
        Nat.lt_of_lt_of_le (List.length_pos_iff.mpr hwork)
          (hle i ((hquiet i).resolve_right hne))
      obtain ⟨j, hj⟩ := hn.exists_of_pos hpos
      exact hnotOnWay j hj
    have hperm := hi.perm hwork fun i x hx => by
      rcases hquiet i with h | h <;> simp [hx] at h
    cases hgone : s.gone with
    | true => exact .inl ⟨hwork, hperm, hquiet, fun _ => hgone⟩
    | false =>
    cases ht : s.terminate with
    | false => exact .inl ⟨hwork, hperm, hquiet, fun ht' => absurd (ht.symm.trans ht') (by simp)⟩
    | true =>
      refine .inr ?_
      cases hjoining : s.joining with
      | nil => exact ⟨.free, _, trivial, if_pos ⟨ht, hjoining, by simp [hgone]⟩⟩
      | cons t ts =>
        have hended : s.worker t = .at .ended :=
          (hquiet t).resolve_left (by simp [(hp.housed.terminated ht).2 t])
        refine ⟨.join, { s with joining := ts }, trivial, ?_⟩
        simp only [step, hjoining, if_pos hended]

/-- Provided that every item returns, the workers do all work that was accepted, and if the pool is
    being destroyed then it is freed: every run in which only they and the destructor go on is finite,
    and can go on until then. -/
theorem comesTo_rest_of_reachable (h : pool.Reachable s) : pool.ComesTo GoesOn Rests s := by
  refine .of_measure (r := (· < ·)) (I := pool.Reachable) State.load h (wellFounded_lt.apply _)
    (fun s t l hs hl hstep => ?_) fun s hs => ?_
  · exact ⟨hs.step trivial hstep, load_of_step hl (pooled_of_reachable hs) hstep⟩
  · exact rests_or_goesOn (pooled_of_reachable hs) (inTurn_of_reachable hs)

/-- Two items wait for the one worker of a pool that is being destroyed. -/
theorem comesTo_rest_of_destroy : ∃ s : State, s.terminate = true ∧ s.work = [2, 1] ∧
    pool.ComesTo GoesOn Rests s := by
  obtain ⟨s, hs, htest⟩ := Machine.Reachable.exec_any
    (.init ⟨0, 1, 1, by decide, by decide, by decide, rfl⟩ : pool.Reachable (.create 0 1 1))
    [.add true true none, .worker 0, .add true true none, .add true true none, .destroy]
    (p := fun s => decide (s.terminate = true ∧ s.work = [2, 1])) (by decide +kernel)
  obtain ⟨hterminate, hwork⟩ := of_decide_eq_true htest
  exact ⟨s, hterminate, hwork, comesTo_rest_of_reachable hs⟩

end ThreadPool
