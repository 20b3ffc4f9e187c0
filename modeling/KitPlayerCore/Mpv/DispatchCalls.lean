-- SUMMARY: That the callbacks of the dispatch queue are run once and in order, and that every call of its functions can return.
import KitPlayerCore.Mpv.DispatchLock

/-!
# Callbacks and calls

The items are run in the order in which they were added, each of them once unless it is
cancelled. A thread that asked for the lock gets it as soon as those in front of it are
through, and one that waits in `mp_dispatch_run` goes on when its callback has returned.
-/

namespace Dispatch

open Transition

variable {α : Type} {s s' : State α} {n : Nat} {r : Option (Item α)}

/-! ## What is expected -/

/-- The item whose callback is run. -/
def item : Place TargetWait (TargetSpot α) → Option (Item α)
  | .at (.running item) => some item
  | _ => none

/-- The items that were not dropped, in the order in which they are run. -/
def State.kept (s : State α) : List Nat := s.begun ++ s.queue.map Item.id

/-- The items that were freed because there was one like them. -/
def State.dropped (s : State α) : List Nat := s.merged.map fun p => p.1.id

/-- The callbacks are run in order. -/
structure InOrder [DecidableEq α] (s : State α) : Prop where
  /-- None is run twice or before one that was added earlier. -/
  sorted : s.kept.Pairwise (· < ·)
  /-- Each item that was added is kept, or else cancelled, or else merged. -/
  accounted : (s.kept ++ s.cancelled ++ s.dropped).Perm (List.range s.added)
  /-- An item is merged only into one like it that is still to be run. -/
  merges : ∀ l s', step s l = some s' → ∀ p ∈ s'.merged, p ∈ s.merged ∨
    p.2 ∈ s.queue ∧ p.1.mergeable = true ∧ p.2.mergeable = true ∧ p.1.fn = p.2.fn
  /-- The target thread does not leave before all is done. -/
  leaves : ∀ l s', step s l = some s' → s.target ≠ .at .outside → s'.target = .at .outside →
    s'.queue = [] ∧ s'.lockRequests = 0
  /-- `mp_dispatch_run` returns only when its callback has returned. -/
  returned : ∀ l s' n i, step s l = some s' → (s.client n).waitsFor = some (.completed i) →
    s'.client n = .at .idle → i ∈ s'.begun ∧ ∀ x ∈ item s'.target, x.id ≠ i

/-! ## The invariant -/

@[simp] theorem item_wake (p : Place TargetWait (TargetSpot α)) : item p.wake = item p := by
  cases p <;> rfl

/-- The item is one of `mp_dispatch_run`, and is completed, run now while `r` is, or pending. -/
def Coming (s : State α) (r : Option (Item α)) (i : Nat) : Prop :=
  i ∈ s.completed ∨ ∃ x, x.id = i ∧ x.asynchronous = false ∧ (r = some x ∨ x ∈ s.queue)

/-- The items, where the callback of `r` is run. -/
structure Kept (s : State α) (r : Option (Item α)) : Prop where
  sorted : s.kept.Pairwise (· < ·)
  accounted : (s.kept ++ s.cancelled ++ s.dropped).Perm (List.range s.added)
  running : ∀ x ∈ r, x.id ∈ s.begun
  completed : ∀ i ∈ s.completed, i ∈ s.begun ∧ ∀ x ∈ r, x.id ≠ i
  awaited : ∀ n i, (s.client n).waitsFor = some (.completed i) → Coming s r i

/-- A step that leaves the items alone. -/
structure Frame (s s' : State α) : Prop where
  queue : s'.queue = s.queue
  begun : s'.begun = s.begun
  completed : s'.completed = s.completed
  added : s'.added = s.added
  cancelled : s'.cancelled = s.cancelled
  merged : s'.merged = s.merged
  client : ∀ n i, (s'.client n).waitsFor = some (.completed i) →
    (s.client n).waitsFor = some (.completed i)

theorem Kept.below (h : Kept s r) {i : Nat} (hi : i ∈ s.kept) : i < s.added :=
  List.mem_range.mp (h.accounted.subset (List.mem_append_left _ (List.mem_append_left _ hi)))

theorem Kept.frame (h : Kept s r) (hf : Frame s s') : Kept s' r := by
  have hkept : s'.kept = s.kept := by rw [State.kept, State.kept, hf.begun, hf.queue]
  refine ⟨hkept ▸ h.sorted, ?_, ?_, ?_, fun n i hn => ?_⟩
  · rw [hkept, hf.added, hf.cancelled, State.dropped, hf.merged]
    exact h.accounted
  · rw [hf.begun]
    exact h.running
  · rw [hf.completed, hf.begun]
    exact h.completed
  · have hcoming := h.awaited n i (hf.client n i hn)
    rwa [Coming, hf.completed, hf.queue]

theorem Frame.broadcast (s : State α) : Frame s s.broadcast :=
  ⟨rfl, rfl, rfl, rfl, rfl, rfl, fun n i hn => by simpa [State.broadcast] using hn⟩

/-- A thread goes on in `mp_dispatch_lock`, in `mp_dispatch_unlock`, or to its end. -/
theorem Frame.goto (s : State α) (n : Nat) {p : Place ClientWait ClientSpot}
    (hp : ∀ i, p.waitsFor = some (.completed i) → (s.client n).waitsFor = some (.completed i)) :
    Frame s (s.goto n p) := by
  refine ⟨rfl, rfl, rfl, rfl, rfl, rfl, fun m i hm => ?_⟩
  by_cases hmn : m = n
  · subst hmn
    exact hp i (by simpa [State.goto] using hm)
  · simpa [State.goto, hmn] using hm

theorem Frame.trans {s'' : State α} (h : Frame s s') (h' : Frame s' s'') : Frame s s'' :=
  ⟨h'.queue.trans h.queue, h'.begun.trans h.begun, h'.completed.trans h.completed,
    h'.added.trans h.added, h'.cancelled.trans h.cancelled, h'.merged.trans h.merged,
    fun n i hn => h.client n i (h'.client n i hn)⟩

theorem Frame.acquire (s : State α) (n : Nat) : Frame s (s.acquire n) := by
  unfold State.acquire
  split
  · exact .goto s n nofun
  · have hfields : Frame s { s with
        locked := true
        lockedExplicit := some n
        failed := s.assert (0 < s.lockRequests && !s.locked && s.lockedExplicit.isNone) } :=
      ⟨rfl, rfl, rfl, rfl, rfl, rfl, fun _ _ h => h⟩
    exact hfields.trans (.goto _ n nofun)

theorem Frame.trap (s : State α) (n : Nat) : Frame s (s.trap n) := by
  unfold State.trap
  split
  · exact .acquire s n
  · exact .goto s n nofun

theorem Frame.called (s : State α) (n : Nat) : Frame s (s.called n) := by
  unfold State.called
  split
  · exact .acquire s n
  · exact .goto s n nofun

theorem Frame.next (hs : s.next n = some s') : Frame s s' := by
  unfold State.next at hs
  split at hs <;> cases hs
  · exact .called s n
  · exact .trap s n
  · exact .acquire s n
  · rename_i i hn
    refine .goto s n fun j hj => ?_
    split at hj
    · cases hj
    · simpa [hn] using hj

theorem acquire_target (s : State α) (n : Nat) : (s.acquire n).target = s.target := by
  unfold State.acquire
  split <;> rfl

theorem trap_target (s : State α) (n : Nat) : (s.trap n).target = s.target := by
  unfold State.trap
  split
  · exact acquire_target s n
  · rfl

theorem called_target (s : State α) (n : Nat) : (s.called n).target = s.target := by
  unfold State.called
  split
  · exact acquire_target s n
  · rfl

theorem next_target (hs : s.next n = some s') : s'.target = s.target := by
  unfold State.next at hs
  split at hs <;> cases hs
  · exact called_target s n
  · exact trap_target s n
  · exact acquire_target s n
  · rfl

/-- Where the target thread looks at the queue, no callback is run. -/
theorem Kept.loop (h : Kept s none) : Kept s.loop (item s.loop.target) := by
  obtain ⟨-, heq⟩ | ⟨-, ⟨x, queue, hqueue, heq⟩ | ⟨-, ⟨-, -, heq⟩ | heq⟩⟩ := loop_cases s
  · rw [heq]
    exact h.frame ⟨rfl, rfl, rfl, rfl, rfl, rfl, fun _ _ hn => hn⟩
  · have hkept : s.loop.kept = s.kept := by simp [heq, State.kept, hqueue]
    have hnew : x.id ∉ s.begun := by
      intro hmem
      have hsorted := List.pairwise_append.mp h.sorted
      exact absurd (hsorted.2.2 _ hmem x.id (by simp [hqueue])) (lt_irrefl _)
    refine ⟨hkept ▸ h.sorted, ?_, ?_, ?_, fun n i hn => ?_⟩
    · rw [hkept, heq]
      exact h.accounted
    · simp [heq, item]
    · intro i hi
      rw [heq] at hi ⊢
      have hbegun := (h.completed i hi).1
      refine ⟨List.mem_append_left _ hbegun, ?_⟩
      rintro _ ⟨⟩ rfl
      exact hnew hbegun
    · rw [heq] at hn ⊢
      obtain hdone | ⟨y, hid, hsync, hy | hy⟩ := h.awaited n i hn
      · exact .inl hdone
      · cases hy
      · rw [hqueue] at hy
        obtain rfl | hy := List.mem_cons.mp hy
        · exact .inr ⟨y, hid, hsync, .inl rfl⟩
        · exact .inr ⟨y, hid, hsync, .inr hy⟩
  · rw [heq]
    exact h.frame ⟨rfl, rfl, rfl, rfl, rfl, rfl, fun _ _ hn => hn⟩
  · rw [heq]
    exact h.frame ⟨rfl, rfl, rfl, rfl, rfl, rfl, fun _ _ hn => hn⟩

/-- The callback of `x` has returned. -/
theorem Kept.finish {x : Item α} (h : Kept s (some x)) :
    Kept (s.finish x) (item (s.finish x).target) := by
  have hfree : Kept { s with locked := false, failed := s.assert s.locked } (some x) :=
    h.frame ⟨rfl, rfl, rfl, rfl, rfl, rfl, fun _ _ hn => hn⟩
  have hb := hfree.frame (.broadcast _)
  unfold State.finish
  refine Kept.loop ?_
  cases hx : x.asynchronous with
  | true =>
    refine ⟨hb.sorted, hb.accounted, nofun, fun i hi => ⟨(hb.completed i hi).1, nofun⟩,
      fun n i hn => ?_⟩
    obtain hdone | ⟨y, hid, hsync, hy | hy⟩ := hb.awaited n i hn
    · exact .inl hdone
    · cases hy
      rw [hx] at hsync
      cases hsync
    · exact .inr ⟨y, hid, hsync, .inr hy⟩
  | false =>
    refine ⟨hb.sorted, hb.accounted, nofun, ?_, fun n i hn => ?_⟩
    · intro i hi
      refine ⟨?_, nofun⟩
      obtain rfl | hi := List.mem_cons.mp hi
      · exact hb.running x rfl
      · exact (hb.completed i hi).1
    · obtain hdone | ⟨y, hid, hsync, hy | hy⟩ := hb.awaited n i hn
      · exact .inl (List.mem_cons_of_mem _ hdone)
      · cases hy
        exact .inl (hid ▸ List.mem_cons_self)
      · exact .inr ⟨y, hid, hsync, .inr hy⟩

/-- What `mp_dispatch_append` does with a new item. -/
theorem append_cases [DecidableEq α] (s : State α) (x : Item α) :
    (∃ cur ∈ s.queue, x.mergeable = true ∧ cur.mergeable = true ∧ x.fn = cur.fn ∧
        s.append x = { s with added := s.added + 1, merged := s.merged ++ [(x, cur)] }) ∨
      s.append x = { s.broadcast with
        queue := s.queue ++ [x]
        interrupted := s.interrupted || !s.hasWakeupFn
        added := s.added + 1 } := by
  unfold State.append
  split
  · rename_i cur hcur
    have hlike := List.find?_some hcur
    simp only [State.mergesInto, Bool.and_eq_true, decide_eq_true_eq] at hlike
    exact .inl ⟨cur, List.mem_of_find?_eq_some hcur, hlike.1.1, hlike.1.2, hlike.2.symm, rfl⟩
  · exact .inr rfl

theorem perm_range_concat {l : List Nat} {n : Nat} (h : l.Perm (List.range n)) :
    (l ++ [n]).Perm (List.range (n + 1)) := by
  rw [List.range_succ]
  exact h.append_right [n]

theorem perm_concat (l l' l'' : List Nat) (n : Nat) :
    (l ++ [n] ++ l' ++ l'').Perm (l ++ l' ++ l'' ++ [n]) := by
  have hcomm : ([n] ++ (l' ++ l'')).Perm (l' ++ l'' ++ [n]) := List.perm_append_comm
  simpa only [List.append_assoc] using hcomm.append_left l

theorem append_of_not_mergeable [DecidableEq α] (s : State α) {x : Item α}
    (hx : x.mergeable = false) : s.append x = { s.broadcast with
      queue := s.queue ++ [x]
      interrupted := s.interrupted || !s.hasWakeupFn
      added := s.added + 1 } := by
  obtain ⟨cur, -, hmergeable, -⟩ | heq := append_cases s x
  · simp [hx] at hmergeable
  · exact heq

/-- A new item comes last, or is merged. -/
theorem Kept.append [DecidableEq α] (h : Kept s r) {x : Item α} (hx : x.id = s.added) :
    Kept (s.append x) r := by
  obtain ⟨cur, -, -, -, -, heq⟩ | heq := append_cases s x
  · rw [heq]
    refine ⟨h.sorted, ?_, h.running, h.completed, h.awaited⟩
    have hnew := perm_range_concat h.accounted
    rw [List.append_assoc] at hnew
    simpa [State.kept, State.dropped, hx] using hnew
  · have hb := h.frame (.broadcast s)
    have hkept : (s.append x).kept = s.kept ++ [s.added] := by
      simp [heq, State.kept, State.broadcast, hx]
    rw [heq] at hkept ⊢
    refine ⟨?_, ?_, hb.running, hb.completed, fun n i hn => ?_⟩
    · rw [hkept]
      refine List.pairwise_append.mpr ⟨h.sorted, List.pairwise_singleton _ _, fun i hi j hj => ?_⟩
      rw [List.mem_singleton.mp hj]
      exact h.below hi
    · rw [hkept]
      exact (perm_concat s.kept s.cancelled s.dropped s.added).trans
        (perm_range_concat h.accounted)
    · obtain hdone | ⟨y, hid, hsync, hy⟩ := hb.awaited n i hn
      · exact .inl hdone
      · exact .inr ⟨y, hid, hsync, hy.imp_right (List.mem_append_left _)⟩

theorem Kept.cancel [DecidableEq α] (h : Kept s r) {fn : α} (hs : s.cancel fn = some s') :
    Kept s' r := by
  simp only [State.cancel, Option.ite_none_left_eq_some, Option.some.injEq] at hs
  obtain ⟨hsync, rfl⟩ := hs
  have hsub : (s.begun ++ (s.queue.filter (·.fn ≠ fn)).map Item.id).Sublist s.kept :=
    (List.Sublist.refl s.begun).append (List.filter_sublist.map _)
  -- what was in the queue is either still there or cancelled
  have hqueue : ((s.queue.filter (·.fn ≠ fn)).map Item.id ++
      (s.queue.filter (·.fn = fn)).map Item.id).Perm (s.queue.map Item.id) := by
    rw [← List.map_append]
    refine List.Perm.map _ ?_
    have hsplit := List.filter_append_perm (fun x : Item α => decide (x.fn ≠ fn)) s.queue
    simpa using hsplit
  refine ⟨h.sorted.sublist hsub, ?_, h.running, h.completed, fun n i hn => ?_⟩
  · refine List.Perm.trans ?_ h.accounted
    refine List.Perm.append_right s.dropped ?_
    have hcancelled : ((s.queue.filter (·.fn ≠ fn)).map Item.id ++
        (s.cancelled ++ (s.queue.filter (·.fn = fn)).map Item.id)).Perm
        (s.queue.map Item.id ++ s.cancelled) := by
      refine List.Perm.trans (List.Perm.append_left _ List.perm_append_comm) ?_
      rw [← List.append_assoc]
      exact hqueue.append_right s.cancelled
    simp only [State.kept, List.append_assoc]
    exact hcancelled.append_left s.begun
  · obtain hdone | ⟨y, hid, hy, hrun | hy'⟩ := h.awaited n i hn
    · exact .inl hdone
    · exact .inr ⟨y, hid, hy, .inl hrun⟩
    · refine .inr ⟨y, hid, hy, .inr (List.mem_filter.mpr ⟨hy', ?_⟩)⟩
      exact decide_eq_true fun hfn => hsync ⟨y, hy', hfn, hy⟩

theorem Kept.run [DecidableEq α] (h : Kept s r) (n : Nat) (fn : α) : Kept (s.run n fn) r := by
  have happend := h.append (x := ⟨s.added, fn, false, false⟩) rfl
  unfold State.run
  refine ⟨happend.sorted, happend.accounted, happend.running, happend.completed,
    fun m i hm => ?_⟩
  by_cases hmn : m = n
  · subst hmn
    have hi : s.added = i := by simpa [State.goto] using hm
    subst hi
    exact .inr ⟨⟨s.added, fn, false, false⟩, rfl, rfl,
      .inr (by simp [append_of_not_mergeable, State.goto])⟩
  · exact happend.awaited m i (by simpa [State.goto, hmn] using hm)

theorem Kept.step [DecidableEq α] {l : Label α} (h : Kept s (item s.target))
    (hs : Dispatch.step s l = some s') : Kept s' (item s'.target) := by
  cases l with
  | enqueue fn mergeable =>
    cases hs
    have hitem : item (s.append ⟨s.added, fn, true, mergeable⟩).target = item s.target := by
      unfold State.append
      split
      · rfl
      · exact item_wake _
    exact hitem ▸ h.append rfl
  | cancel fn =>
    have htarget : s'.target = s.target := by
      simp only [Dispatch.step, State.cancel, Option.ite_none_left_eq_some, Option.some.injEq] at hs
      exact hs.2 ▸ rfl
    exact htarget ▸ h.cancel hs
  | interrupt =>
    cases hs
    have hfields : Frame s { s with interrupted := true } :=
      ⟨rfl, rfl, rfl, rfl, rfl, rfl, fun _ _ hn => hn⟩
    exact item_wake s.target ▸ h.frame (hfields.trans (.broadcast _))
  | adjustTimeout until' =>
    cases hs
    unfold State.adjustTimeout
    split
    · have hfields : Frame s { s with wait := until' } :=
        ⟨rfl, rfl, rfl, rfl, rfl, rfl, fun _ _ hn => hn⟩
      exact item_wake s.target ▸ h.frame (hfields.trans (.broadcast _))
    · exact h
  | process wait =>
    simp only [Dispatch.step, Option.ite_none_right_eq_some, Option.some.injEq] at hs
    obtain ⟨houtside, rfl⟩ := hs
    rw [houtside] at h
    have hfields : Kept { s with
        wait := wait, inProcess := true, failed := s.assert !s.inProcess } none :=
      h.frame ⟨rfl, rfl, rfl, rfl, rfl, rfl, fun _ _ hn => hn⟩
    unfold State.process
    refine Kept.loop ?_
    split
    · exact hfields.frame (.broadcast _)
    · exact hfields
  | finish =>
    simp only [Dispatch.step] at hs
    split at hs
    · rename_i x hx
      cases hs
      rw [hx] at h
      exact h.finish
    · cases hs
  | timeout =>
    simp only [Dispatch.step, Option.ite_none_right_eq_some, Option.some.injEq] at hs
    obtain ⟨hasleep, rfl⟩ := hs
    rw [hasleep] at h
    have hfields : Kept { s with wait := 0 } none :=
      h.frame ⟨rfl, rfl, rfl, rfl, rfl, rfl, fun _ _ hn => hn⟩
    exact hfields.loop
  | wakeTarget =>
    simp only [Dispatch.step] at hs
    split at hs
    · cases hs
      exact item_wake s.target ▸ h.frame ⟨rfl, rfl, rfl, rfl, rfl, rfl, fun _ _ hn => hn⟩
    · cases hs
  | target =>
    simp only [Dispatch.step] at hs
    split at hs
    · rename_i c hwoken
      cases hs
      rw [hwoken] at h
      exact Kept.loop h
    · cases hs
  | wakeClient n =>
    simp only [Dispatch.step] at hs
    split at hs
    · cases hs
      exact h.frame (.goto s n fun i hi => by simpa using hi)
    · cases hs
  | client n =>
    exact next_target hs ▸ h.frame (.next hs)
  | lock n =>
    simp only [Dispatch.step, Option.ite_none_right_eq_some, Option.some.injEq] at hs
    obtain ⟨-, rfl⟩ := hs
    have htarget : (s.lock n).target = s.target := trap_target _ n
    have hfields : Frame s { s with
        lockRequests := s.lockRequests + 1
        failed := s.assert (s.lockedExplicit ≠ some n) } :=
      ⟨rfl, rfl, rfl, rfl, rfl, rfl, fun _ _ hn => hn⟩
    exact htarget ▸ h.frame (hfields.trans (.trap _ n))
  | unlock n =>
    simp only [Dispatch.step, Option.ite_none_right_eq_some, Option.some.injEq] at hs
    obtain ⟨-, rfl⟩ := hs
    have hfields : Frame s { s with
        locked := false
        lockedExplicit := none
        lockRequests := s.lockRequests - 1
        failed := s.assert (s.locked && s.lockedExplicit == some n) } :=
      ⟨rfl, rfl, rfl, rfl, rfl, rfl, fun _ _ hn => hn⟩
    exact item_wake s.target ▸ h.frame
      ((hfields.trans (.broadcast _)).trans (.goto _ n (by rintro _ ⟨⟩)))
  | run n fn =>
    simp only [Dispatch.step, Option.ite_none_right_eq_some, Option.some.injEq] at hs
    obtain ⟨-, rfl⟩ := hs
    have hitem : item (s.run n fn).target = item s.target := by
      simp [State.run, append_of_not_mergeable, State.goto, State.broadcast]
    exact hitem ▸ h.run n fn

theorem kept_of_reachable [DecidableEq α] (h : (dispatch α).Reachable s) :
    Kept s (item s.target) := by
  refine h.invariant (I := fun s => Kept s (item s.target)) ?_ fun _ _ _ h _ hs => h.step hs
  rintro _ ⟨hasWakeupFn, rfl⟩
  exact ⟨List.Pairwise.nil, List.Perm.refl _, nofun, nofun, nofun⟩

/-! ## Order -/

/-- The target thread leaves only where nothing is left to do. -/
theorem loop_outside (h : s.loop.target = .at .outside) :
    s.loop.queue = [] ∧ s.loop.lockRequests = 0 := by
  obtain ⟨-, heq⟩ | ⟨hzero, ⟨x, queue, hqueue, heq⟩ | ⟨hqueue, ⟨-, -, heq⟩ | heq⟩⟩ := loop_cases s
  · rw [heq] at h
    cases h
  · rw [heq] at h
    cases h
  · rw [heq] at h
    cases h
  · rw [heq]
    exact ⟨hqueue, hzero⟩

theorem leaves_of_step [DecidableEq α] {l : Label α} (hs : Dispatch.step s l = some s')
    (hin : s.target ≠ .at .outside) (hout : s'.target = .at .outside) :
    s'.queue = [] ∧ s'.lockRequests = 0 := by
  have hsame {p : Place TargetWait (TargetSpot α)} (hp : s'.target = p)
      (hwake : p = s.target ∨ p = s.target.wake) : s'.queue = [] ∧ s'.lockRequests = 0 := by
    obtain rfl | rfl := hwake
    · exact absurd (hp.symm.trans hout) hin
    · exact absurd (Place.wake_eq_at.mp (hp.symm.trans hout)) hin
  cases l with
  | enqueue fn mergeable =>
    cases hs
    refine hsame rfl ?_
    unfold State.append
    split
    · exact .inl rfl
    · exact .inr rfl
  | cancel fn =>
    simp only [Dispatch.step, State.cancel, Option.ite_none_left_eq_some, Option.some.injEq] at hs
    exact hsame (hs.2 ▸ rfl) (.inl rfl)
  | interrupt =>
    cases hs
    exact hsame rfl (.inr rfl)
  | adjustTimeout until' =>
    cases hs
    refine hsame rfl ?_
    unfold State.adjustTimeout
    split
    · exact .inr rfl
    · exact .inl rfl
  | process wait =>
    simp only [Dispatch.step, Option.ite_none_right_eq_some] at hs
    exact absurd hs.1 hin
  | finish =>
    simp only [Dispatch.step] at hs
    split at hs <;> cases hs
    exact loop_outside hout
  | timeout =>
    simp only [Dispatch.step, Option.ite_none_right_eq_some, Option.some.injEq] at hs
    obtain ⟨-, rfl⟩ := hs
    exact loop_outside hout
  | wakeTarget =>
    simp only [Dispatch.step] at hs
    split at hs <;> cases hs
    exact hsame rfl (.inr rfl)
  | target =>
    simp only [Dispatch.step] at hs
    split at hs <;> cases hs
    exact loop_outside hout
  | wakeClient n =>
    simp only [Dispatch.step] at hs
    split at hs <;> cases hs
    exact hsame rfl (.inl rfl)
  | client n => exact hsame (next_target hs) (.inl rfl)
  | lock n =>
    simp only [Dispatch.step, Option.ite_none_right_eq_some, Option.some.injEq] at hs
    obtain ⟨-, rfl⟩ := hs
    exact hsame (trap_target _ n) (.inl rfl)
  | unlock n =>
    simp only [Dispatch.step, Option.ite_none_right_eq_some, Option.some.injEq] at hs
    obtain ⟨-, rfl⟩ := hs
    exact hsame rfl (.inr rfl)
  | run n fn =>
    simp only [Dispatch.step, Option.ite_none_right_eq_some, Option.some.injEq] at hs
    obtain ⟨-, rfl⟩ := hs
    exact hsame rfl (.inr (by simp [State.run, append_of_not_mergeable, State.goto, State.broadcast]))

theorem loop_merged (s : State α) : s.loop.merged = s.merged := by
  obtain ⟨-, heq⟩ | ⟨-, ⟨x, queue, -, heq⟩ | ⟨-, ⟨-, -, heq⟩ | heq⟩⟩ := loop_cases s <;> rw [heq]

/-- Only `mp_dispatch_append` merges. -/
theorem merges_of_step [DecidableEq α] {l : Label α} (hs : Dispatch.step s l = some s')
    (p : Item α × Item α) (hp : p ∈ s'.merged) : p ∈ s.merged ∨
      p.2 ∈ s.queue ∧ p.1.mergeable = true ∧ p.2.mergeable = true ∧ p.1.fn = p.2.fn := by
  have hsame (heq : s'.merged = s.merged) : p ∈ s.merged := heq ▸ hp
  cases l with
  | enqueue fn mergeable =>
    cases hs
    obtain ⟨cur, hcur, hx, hy, hfn, heq⟩ | heq := append_cases s ⟨s.added, fn, true, mergeable⟩
    · rw [heq] at hp
      obtain hp | hp := List.mem_append.mp hp
      · exact .inl hp
      · rw [List.mem_singleton.mp hp]
        exact .inr ⟨hcur, hx, hy, hfn⟩
    · exact .inl (hsame (by rw [heq]; rfl))
  | run n fn =>
    simp only [Dispatch.step, Option.ite_none_right_eq_some, Option.some.injEq] at hs
    obtain ⟨-, rfl⟩ := hs
    refine .inl (hsame ?_)
    rw [State.run, append_of_not_mergeable s rfl]
    rfl
  | cancel fn =>
    simp only [Dispatch.step, State.cancel, Option.ite_none_left_eq_some, Option.some.injEq] at hs
    exact .inl (hsame (hs.2 ▸ rfl))
  | interrupt =>
    cases hs
    exact .inl hp
  | adjustTimeout until' =>
    cases hs
    refine .inl (hsame ?_)
    unfold State.adjustTimeout
    split <;> rfl
  | process wait =>
    simp only [Dispatch.step, Option.ite_none_right_eq_some, Option.some.injEq] at hs
    obtain ⟨-, rfl⟩ := hs
    refine .inl (hsame ((loop_merged _).trans ?_))
    split <;> rfl
  | finish =>
    simp only [Dispatch.step] at hs
    split at hs <;> cases hs
    refine .inl (hsame ((loop_merged _).trans ?_))
    split <;> rfl
  | timeout =>
    simp only [Dispatch.step, Option.ite_none_right_eq_some, Option.some.injEq] at hs
    obtain ⟨-, rfl⟩ := hs
    exact .inl (hsame (loop_merged _))
  | target =>
    simp only [Dispatch.step] at hs
    split at hs <;> cases hs
    exact .inl (hsame (loop_merged _))
  | wakeTarget | wakeClient =>
    simp only [Dispatch.step] at hs
    split at hs <;> cases hs
    exact .inl hp
  | client n => exact .inl (hsame (Frame.next hs).merged)
  | lock n =>
    simp only [Dispatch.step, Option.ite_none_right_eq_some, Option.some.injEq] at hs
    obtain ⟨-, rfl⟩ := hs
    exact .inl (hsame (Frame.trap _ n).merged)
  | unlock n =>
    simp only [Dispatch.step, Option.ite_none_right_eq_some, Option.some.injEq] at hs
    obtain ⟨-, rfl⟩ := hs
    exact .inl hp

/-- A thread that waits goes on waiting for the same, until it moves by itself. -/
theorem waitsFor_of_step [DecidableEq α] {l : Label α} {c : ClientWait}
    (hs : Dispatch.step s l = some s') (hl : l ≠ .client n) (hn : (s.client n).waitsFor = some c) :
    (s'.client n).waitsFor = some c := by
  have hloop (t : State α) (hc : (t.client n).waitsFor = some c) :
      (t.loop.client n).waitsFor = some c := by
    obtain ⟨-, heq⟩ | ⟨-, ⟨x, queue, -, heq⟩ | ⟨-, ⟨-, -, heq⟩ | heq⟩⟩ := loop_cases t <;>
      exact heq ▸ hc
  have hwake (t : State α) (hc : (t.client n).waitsFor = some c) :
      (t.broadcast.client n).waitsFor = some c := by
    simpa [State.broadcast] using hc
  have hgoto (t : State α) {m : Nat} {p : Place ClientWait ClientSpot} (hm : m ≠ n)
      (hc : (t.client n).waitsFor = some c) : ((t.goto m p).client n).waitsFor = some c := by
    simpa [State.goto, Ne.symm hm] using hc
  have hacquire (t : State α) {m : Nat} (hm : m ≠ n) (hc : (t.client n).waitsFor = some c) :
      ((t.acquire m).client n).waitsFor = some c := by
    unfold State.acquire
    split
    · exact hgoto t hm hc
    · exact hgoto _ hm hc
  have htrap (t : State α) {m : Nat} (hm : m ≠ n) (hc : (t.client n).waitsFor = some c) :
      ((t.trap m).client n).waitsFor = some c := by
    unfold State.trap
    split
    · exact hacquire t hm hc
    · exact hgoto t hm hc
  have happend (t : State α) (x : Item α) (hc : (t.client n).waitsFor = some c) :
      ((t.append x).client n).waitsFor = some c := by
    unfold State.append
    split
    · exact hc
    · exact hwake t hc
  -- a thread that makes a new call waits for nothing before
  have hother {m : Nat} {r : ClientSpot} (hm : s.client m = .at r) : m ≠ n := by
    rintro rfl
    rw [hm] at hn
    cases hn
  cases l with
  | enqueue fn mergeable =>
    cases hs
    exact happend s _ hn
  | cancel fn =>
    simp only [Dispatch.step, State.cancel, Option.ite_none_left_eq_some, Option.some.injEq] at hs
    exact hs.2 ▸ hn
  | interrupt =>
    cases hs
    exact hwake { s with interrupted := true } hn
  | adjustTimeout until' =>
    cases hs
    unfold State.adjustTimeout
    split
    · exact hwake { s with wait := until' } hn
    · exact hn
  | process wait =>
    simp only [Dispatch.step, Option.ite_none_right_eq_some, Option.some.injEq] at hs
    obtain ⟨-, rfl⟩ := hs
    unfold State.process
    refine hloop _ ?_
    split
    · exact hwake { s with wait := wait, inProcess := true, failed := s.assert !s.inProcess } hn
    · exact hn
  | finish =>
    simp only [Dispatch.step] at hs
    split at hs <;> cases hs
    unfold State.finish
    refine hloop _ ?_
    split
    · exact hwake { s with locked := false, failed := s.assert s.locked } hn
    · exact hwake { s with locked := false, failed := s.assert s.locked } hn
  | timeout =>
    simp only [Dispatch.step, Option.ite_none_right_eq_some, Option.some.injEq] at hs
    obtain ⟨-, rfl⟩ := hs
    exact hloop { s with wait := 0 } hn
  | wakeTarget =>
    simp only [Dispatch.step] at hs
    split at hs <;> cases hs
    exact hn
  | target =>
    simp only [Dispatch.step] at hs
    split at hs <;> cases hs
    exact hloop s hn
  | wakeClient m =>
    simp only [Dispatch.step] at hs
    split at hs <;> cases hs
    by_cases hm : m = n
    · subst hm
      simpa [State.goto] using hn
    · exact hgoto s hm hn
  | client m =>
    have hm : m ≠ n := by
      rintro rfl
      exact hl rfl
    simp only [Dispatch.step, State.next] at hs
    split at hs <;> cases hs
    · unfold State.called
      split
      · exact hacquire s hm hn
      · exact hgoto s hm hn
    · exact htrap s hm hn
    · exact hacquire s hm hn
    · exact hgoto s hm hn
  | lock m =>
    simp only [Dispatch.step, Option.ite_none_right_eq_some, Option.some.injEq] at hs
    obtain ⟨hm, rfl⟩ := hs
    exact htrap _ (hother hm) hn
  | unlock m =>
    simp only [Dispatch.step, Option.ite_none_right_eq_some, Option.some.injEq] at hs
    obtain ⟨hm, rfl⟩ := hs
    exact hgoto _ (hother hm) (hwake _ hn)
  | run m fn =>
    simp only [Dispatch.step, Option.ite_none_right_eq_some, Option.some.injEq] at hs
    obtain ⟨hm, rfl⟩ := hs
    exact hgoto _ (hother hm) (happend s _ hn)

/-- A thread that has come out of `mp_dispatch_run` has found its item completed. -/
theorem completed_of_step [DecidableEq α] {l : Label α} {i : Nat} (hs : Dispatch.step s l = some s')
    (hn : (s.client n).waitsFor = some (.completed i)) (hidle : s'.client n = .at .idle) :
    i ∈ s'.completed := by
  by_cases hl : l = .client n
  · subst hl
    simp only [Dispatch.step, State.next] at hs
    split at hs
    · rename_i hcalling
      rw [hcalling] at hn
      cases hn
    · rename_i hwoken
      rw [hwoken] at hn
      cases hn
    · rename_i hwoken
      rw [hwoken] at hn
      cases hn
    · rename_i j hwoken
      rw [hwoken] at hn
      cases hn
      cases hs
      by_contra hnot
      have hnot : i ∉ s.completed := hnot
      simp [State.await, State.goto, hnot] at hidle
    all_goals cases hs
  · have hwaits := waitsFor_of_step hs hl hn
    rw [hidle] at hwaits
    cases hwaits

/-- In every reachable state the callbacks have been run in order, each of them once at most, and
    every call that has returned found its work done. -/
theorem inOrder_of_reachable [DecidableEq α] (h : (dispatch α).Reachable s) : InOrder s := by
  have hkept := kept_of_reachable h
  exact ⟨hkept.sorted, hkept.accounted, fun l s' => merges_of_step, fun l s' hs => leaves_of_step hs,
    fun l s' n i hs hn hidle =>
      (kept_of_reachable (h.step trivial hs)).completed i (completed_of_step hs hn hidle)⟩

/-- The second of three callbacks is cancelled after another one was merged into it, the last one
    is run for a thread that waits. -/
theorem inOrder_after_cancel : ∃ s : State Nat, InOrder s ∧
    s.begun = [0, 3] ∧ s.cancelled = [1] ∧ s.dropped = [2] ∧ s.client 0 = .at .idle := by
  obtain ⟨s, hs, htest⟩ := Machine.Reachable.exec_any
    (.init ⟨true, rfl⟩ : (dispatch Nat).Reachable { hasWakeupFn := true })
    [.enqueue 7 false, .enqueue 8 true, .enqueue 8 true, .run 0 9, .client 0, .cancel 8,
      .process 0, .finish, .finish, .client 0]
    (p := fun s => decide (s.begun = [0, 3] ∧ s.cancelled = [1] ∧ s.dropped = [2] ∧
      s.client 0 = .at .idle))
    (by decide +kernel)
  exact ⟨s, inOrder_of_reachable hs, of_decide_eq_true htest⟩

/-! ## Returning -/

/-- What serves the calls that are under way: the target thread comes to the queue and runs
    callbacks, and the threads in `p` go on in their calls, or give the lock back. -/
def Serves (p : Nat → Prop) : Label α → Prop
  | .process _ | .finish | .target => True
  | .client n | .unlock n => p n
  | _ => False

/-- Who has to go on so that the thread `n` returns: the thread itself and the one that has the
    lock; and for `mp_dispatch_run`, whoever asks for the lock, since the target thread lets them
    go first. -/
def State.Ahead (s : State α) (n m : Nat) : Prop :=
  m = n ∨ s.client m = .at .holding ∨
    (∃ i, (s.client n).waitsFor = some (.completed i)) ∧ Requests (s.client m)

theorem Serves.mono {p q : Nat → Prop} {l : Label α} (hl : Serves p l) (hpq : ∀ n, p n → q n) :
    Serves q l := by
  cases l with
  | client n | unlock n => exact hpq n hl
  | process | finish | target => trivial
  | enqueue | cancel | interrupt | adjustTimeout | timeout | wakeTarget | wakeClient | lock | run =>
    exact hl.elim

/-- Where the lock is free, a thread that asks for it and is awake takes it. -/
theorem next_of_free (hin : s.inProcess = true) (hfree : s.locked = false)
    (hn : Requests (s.client n)) (hne : s.client n ≠ .at .holding)
    (hawake : ∀ c, s.client n ≠ .asleep c) :
    ∃ t, s.next n = some t ∧ t.client n = .at .holding := by
  have hacquire : (s.acquire n).client n = .at .holding := by
    simp [State.acquire, hin, hfree, State.goto]
  have hcalled : s.called n = s.acquire n := if_pos hin
  have htrap : s.trap n = s.acquire n := if_pos hin
  cases hp : s.client n with
  | asleep c => exact absurd hp (hawake c)
  | «at» r =>
    cases r with
    | idle =>
      rw [hp] at hn
      exact hn.elim
    | calling => exact ⟨_, by simp only [State.next, hp], hcalled ▸ hacquire⟩
    | holding => exact absurd hp hne
  | woken c =>
    cases c with
    | inProcess => exact ⟨_, by simp only [State.next, hp], htrap ▸ hacquire⟩
    | unlocked => exact ⟨_, by simp only [State.next, hp], hacquire⟩
    | completed i =>
      rw [hp] at hn
      exact hn.elim

/-- Who has been woken by a broadcast takes the lock, if it is free then. -/
theorem granted_of_broadcast [DecidableEq α] {p : Nat → Prop} {t : State α} {l : Label α}
    (hp : p n) (hl : Serves p l) (hs : Dispatch.step s l = some t) (hin : t.inProcess = true)
    (hfree : t.locked = false) (hclient : t.client n = (s.client n).wake)
    (hn : Requests (s.client n)) (hne : s.client n ≠ .at .holding) :
    ∃ u, (dispatch α).Leads (Serves p) s u ∧ u.client n = .at .holding := by
  obtain ⟨u, hu, hheld⟩ := next_of_free (s := t) (n := n) hin hfree
    (by rwa [hclient, requests_wake]) (by rwa [hclient, Ne, Place.wake_eq_at])
    (fun c => by rw [hclient]; exact (s.client n).wake_ne_asleep c)
  exact ⟨u, .head hl hs (.single (l := .client n) hp hu), hheld⟩

/-- A thread that asks for the lock can get it. -/
theorem granted_of_reachable [DecidableEq α] (h : (dispatch α).Reachable s)
    (hn : Requests (s.client n)) :
    ∃ t, (dispatch α).Leads (Serves fun m => m = n ∨ s.client m = .at .holding) s t ∧
      t.client n = .at .holding := by
  have hlocking := locking_of_reachable h
  have hrequests : 0 < s.lockRequests := hlocking.requests.pos hn
  by_cases hne : s.client n = .at .holding
  · exact ⟨s, .refl s, hne⟩
  have hloop (t : State α) (ht : 0 < t.lockRequests) :
      t.loop = { t with target := .asleep .noRequests } := if_pos ht
  cases hexplicit : s.lockedExplicit with
  | some m =>
    -- another thread has the lock, and gives it back
    have hm : s.client m = .at .holding := (hlocking.holder m).mpr hexplicit
    have hmn : n ≠ m := by
      rintro rfl
      exact hne hm
    refine granted_of_broadcast (t := s.unlock m) (l := .unlock m) (.inl rfl) (.inr hm) (if_pos hm)
      ?_ rfl ?_ hn hne
    · exact hlocking.engaged m (hm ▸ trivial)
    · simp [State.unlock, State.goto, State.broadcast, hmn]
  | none =>
    by_cases hrunning : ∃ x, s.target = .at (.running x)
    · -- a callback is run, and returns
      obtain ⟨x, hx⟩ := hrunning
      have hin : s.inProcess = true := hlocking.inProcess.mpr (by simp [hx])
      have hstep : Dispatch.step s .finish = some (s.finish x) := by simp [Dispatch.step, hx]
      have hfinish : ∃ done, s.finish x = { s with
          completed := done
          locked := false
          failed := s.assert s.locked
          client := fun m => (s.client m).wake
          target := .asleep .noRequests } := by
        unfold State.finish
        dsimp only
        split
        · rw [hloop _ (by exact hrequests)]
          exact ⟨_, rfl⟩
        · rw [hloop _ (by exact hrequests)]
          exact ⟨_, rfl⟩
      obtain ⟨done, hdone⟩ := hfinish
      exact granted_of_broadcast (l := .finish) (.inl rfl) trivial hstep (by rw [hdone]; exact hin)
        (by rw [hdone]) (by rw [hdone]) hn hne
    · have hfree : s.locked = false := by
        rw [← Bool.not_eq_true, hlocking.locked, hexplicit]
        rintro (habs | habs)
        · exact habs rfl
        · exact hrunning habs
      by_cases houtside : s.target = .at .outside
      · -- the target thread comes to the queue
        have hstep : Dispatch.step s (.process 0) = some (s.process 0) := if_pos houtside
        have hprocess : s.process 0 = { s with
            wait := 0
            inProcess := true
            failed := s.assert !s.inProcess
            client := fun m => (s.client m).wake
            target := .asleep .noRequests } := by
          unfold State.process
          dsimp only
          rw [if_pos (by exact hrequests), hloop _ (by exact hrequests)]
          rfl
        exact granted_of_broadcast (l := .process 0) (.inl rfl) trivial hstep (by rw [hprocess])
          (by rw [hprocess]; exact hfree) (by rw [hprocess]) hn hne
      · -- the lock is free, and nobody sleeps who waits for that
        have hin : s.inProcess = true := hlocking.inProcess.mpr houtside
        obtain ⟨u, hu, hheld⟩ := next_of_free hin hfree hn hne fun c hc => by
          have hawaits := hlocking.awake n c hc
          rw [hc] at hn
          cases c with
          | inProcess => exact absurd (hawaits.symm.trans hin) (by decide)
          | unlocked => exact absurd (hfree.symm.trans hawaits) (by decide)
          | completed i => exact hn.elim
        exact ⟨u, .single (l := .client n) (.inl rfl) hu, hheld⟩

theorem lockRequests_of_serves [DecidableEq α] {p : Nat → Prop} {l : Label α} (hl : Serves p l)
    (hs : Dispatch.step s l = some s') : s'.lockRequests ≤ s.lockRequests := by
  have hloop (t : State α) : t.loop.lockRequests = t.lockRequests := by
    obtain ⟨-, heq⟩ | ⟨-, ⟨x, queue, -, heq⟩ | ⟨-, ⟨-, -, heq⟩ | heq⟩⟩ := loop_cases t <;> rw [heq]
  cases l with
  | process wait =>
    simp only [Dispatch.step, Option.ite_none_right_eq_some, Option.some.injEq] at hs
    obtain ⟨-, rfl⟩ := hs
    unfold State.process
    rw [hloop]
    split <;> exact le_rfl
  | finish =>
    simp only [Dispatch.step] at hs
    split at hs <;> cases hs
    unfold State.finish
    rw [hloop]
    split <;> exact le_rfl
  | target =>
    simp only [Dispatch.step] at hs
    split at hs <;> cases hs
    exact (hloop s).le
  | client n =>
    have hacquire (n : Nat) : (s.acquire n).lockRequests = s.lockRequests := by
      unfold State.acquire
      split <;> rfl
    simp only [Dispatch.step, State.next] at hs
    split at hs <;> cases hs
    · unfold State.called
      split
      · exact (hacquire n).le
      · exact le_rfl
    · unfold State.trap
      split
      · exact (hacquire n).le
      · exact le_rfl
    · exact (hacquire n).le
    · exact le_rfl
  | unlock n =>
    simp only [Dispatch.step, Option.ite_none_right_eq_some, Option.some.injEq] at hs
    obtain ⟨-, rfl⟩ := hs
    exact Nat.sub_le _ _
  | enqueue | cancel | interrupt | adjustTimeout | timeout | wakeTarget | wakeClient | lock | run =>
    exact hl.elim

/-- Nobody asks for the lock who did not before. -/
theorem requests_of_serves [DecidableEq α] {p : Nat → Prop} {l : Label α} (hl : Serves p l)
    (hs : Dispatch.step s l = some s') (hn : Requests (s'.client n)) : Requests (s.client n) := by
  have hloop (t : State α) (ht : Requests (t.loop.client n)) : Requests (t.client n) := by
    obtain ⟨-, heq⟩ | ⟨-, ⟨x, queue, -, heq⟩ | ⟨-, ⟨-, -, heq⟩ | heq⟩⟩ := loop_cases t <;>
      rw [heq] at ht <;>
      exact ht
  have hwake (t : State α) (ht : Requests (t.broadcast.client n)) : Requests (t.client n) := by
    simpa [State.broadcast] using ht
  have hgoto (t : State α) {m : Nat} {q : Place ClientWait ClientSpot}
      (hq : Requests q → Requests (t.client m)) (ht : Requests ((t.goto m q).client n)) :
      Requests (t.client n) := by
    by_cases hnm : n = m
    · subst hnm
      exact hq (by simpa [State.goto] using ht)
    · simpa [State.goto, hnm] using ht
  cases l with
  | process wait =>
    simp only [Dispatch.step, Option.ite_none_right_eq_some, Option.some.injEq] at hs
    obtain ⟨-, rfl⟩ := hs
    have hn' := hloop _ hn
    split at hn'
    · exact hwake _ hn'
    · exact hn'
  | finish =>
    simp only [Dispatch.step] at hs
    split at hs <;> cases hs
    have hn' := hloop _ hn
    split at hn' <;> exact hwake _ hn'
  | target =>
    simp only [Dispatch.step] at hs
    split at hs <;> cases hs
    exact hloop s hn
  | unlock m =>
    simp only [Dispatch.step, Option.ite_none_right_eq_some, Option.some.injEq] at hs
    obtain ⟨-, rfl⟩ := hs
    exact hwake _ (hgoto _ (q := .at .idle) False.elim hn)
  | client m =>
    have hacquire (hm : Requests (s.client m)) (ht : Requests ((s.acquire m).client n)) :
        Requests (s.client n) := by
      unfold State.acquire at ht
      split at ht <;> exact hgoto _ (fun _ => hm) ht
    simp only [Dispatch.step, State.next] at hs
    split at hs <;> cases hs
    · rename_i hm
      have hm' : Requests (s.client m) := hm ▸ trivial
      unfold State.called at hn
      split at hn
      · exact hacquire hm' hn
      · exact hgoto s (fun _ => hm') hn
    · rename_i hm
      have hm' : Requests (s.client m) := hm ▸ trivial
      unfold State.trap at hn
      split at hn
      · exact hacquire hm' hn
      · exact hgoto s (fun _ => hm') hn
    · rename_i hm
      exact hacquire (hm ▸ trivial) hn
    · refine hgoto s (fun hq => ?_) hn
      split at hq <;> exact False.elim hq
  | enqueue | cancel | interrupt | adjustTimeout | timeout | wakeTarget | wakeClient | lock | run =>
    exact hl.elim

/-- All threads that ask for the lock can be served, while the thread `n` waits. -/
theorem cleared [DecidableEq α] {c : ClientWait} {k : Nat} (h : (dispatch α).Reachable s)
    (hn : (s.client n).waitsFor = some c) (hc : ∀ p, p.waitsFor = some c → ¬ Requests p)
    (hk : s.lockRequests ≤ k) :
    ∃ t, (dispatch α).Leads (Serves fun m => Requests (s.client m)) s t ∧ t.lockRequests = 0 := by
  induction k generalizing s with
  | zero => exact ⟨s, .refl s, Nat.le_zero.mp hk⟩
  | succ k ih =>
    obtain hzero | hpos := Nat.eq_zero_or_pos s.lockRequests
    · exact ⟨s, .refl s, hzero⟩
    obtain ⟨m, hm⟩ := (locking_of_reachable h).requests.exists_of_pos hpos
    obtain ⟨t, hlead, hheld⟩ := granted_of_reachable h hm
    have hlead : (dispatch α).Leads (Serves fun j => Requests (s.client j)) s t := by
      refine hlead.mono fun l hl => hl.mono fun j hj => ?_
      obtain rfl | hj := hj
      · exact hm
      · exact hj ▸ trivial
    have ht := h.leads hlead
    have hunlock : Dispatch.step t (.unlock m) = some (t.unlock m) := if_pos hheld
    have hlead' : (dispatch α).Leads (Serves fun j => Requests (s.client j)) s (t.unlock m) :=
      hlead.trans (.single (l := .unlock m) hm hunlock)
    have hle : (t.unlock m).lockRequests ≤ k := by
      have hfalls : t.lockRequests ≤ s.lockRequests :=
        hlead.invariant (I := fun u => u.lockRequests ≤ s.lockRequests) le_rfl
          fun _ _ _ hu hl hs => (lockRequests_of_serves hl hs).trans hu
      have hpos := (locking_of_reachable ht).requests.pos (i := m) (hheld ▸ trivial)
      show t.lockRequests - 1 ≤ k
      omega
    have hwaits : ((t.unlock m).client n).waitsFor = some c :=
      hlead'.invariant (I := fun u => (u.client n).waitsFor = some c) hn fun _ _ l hu hl hs =>
        waitsFor_of_step hs (by rintro rfl; exact hc _ hn hl) hu
    obtain ⟨u, hrest, hzero⟩ := ih (h.leads hlead') hwaits hle
    -- who asks for the lock now, did so before
    have hbefore (j : Nat) (hj : Requests ((t.unlock m).client j)) : Requests (s.client j) := by
      revert hj
      exact hlead'.invariant (I := fun u => Requests (u.client j) → Requests (s.client j)) id
        fun _ _ _ hu hl hs hj => hu (requests_of_serves hl hs hj)
    exact ⟨u, hlead'.trans (hrest.mono fun l hl => hl.mono hbefore), hzero⟩

/-- How much the target thread has to do. -/
def State.load (s : State α) : Nat := 2 * s.queue.length + (item s.target).toList.length

/-- After its loop the target thread has less to do than was queued before. -/
theorem load_loop {t : State α} (hzero : t.lockRequests = 0) (hqueue : t.queue = s.queue) :
    t.loop.lockRequests = 0 ∧ t.loop.load ≤ 2 * s.queue.length - 1 := by
  rw [← hqueue]
  obtain ⟨hpos, -⟩ | ⟨-, ⟨x, queue, hqueue, heq⟩ | ⟨hqueue, ⟨-, -, heq⟩ | heq⟩⟩ := loop_cases t
  · omega
  · rw [heq]
    exact ⟨hzero, by simp [State.load, hqueue, item]; omega⟩
  · rw [heq]
    exact ⟨hzero, by simp [State.load, hqueue, item]⟩
  · rw [heq]
    exact ⟨hzero, by simp [State.load, hqueue, item]⟩

/-- While no lock is asked for, the target thread gets on with what it has to do. -/
theorem served_of_pending [DecidableEq α] (h : (dispatch α).Reachable s)
    (hzero : s.lockRequests = 0) (hload : 0 < s.load) :
    ∃ l t, Serves (fun _ => False) l ∧ Dispatch.step s l = some t ∧ t.lockRequests = 0 ∧
      t.load < s.load := by
  have hlocking := locking_of_reachable h
  have hless {t : State α} {l : Nat} (hs : 2 * s.queue.length + l = s.load)
      (hle : t.loop.lockRequests = 0 ∧ t.loop.load ≤ 2 * s.queue.length - 1) :
      t.loop.lockRequests = 0 ∧ t.loop.load < s.load := hle.imp_right fun hle => by omega
  cases htarget : s.target with
  | «at» r =>
    cases r with
    | outside =>
      refine ⟨.process 0, s.process 0, trivial, if_pos htarget, ?_⟩
      unfold State.process
      dsimp only
      rw [if_neg (by simp [hzero])]
      exact hless (l := 0) (by simp [State.load, htarget, item]) (load_loop hzero rfl)
    | running x =>
      refine ⟨.finish, s.finish x, trivial, by simp only [Dispatch.step, htarget], ?_⟩
      unfold State.finish
      dsimp only
      split
      · exact hless (l := 1) (by simp [State.load, htarget, item]) (load_loop hzero rfl)
      · exact hless (l := 1) (by simp [State.load, htarget, item]) (load_loop hzero rfl)
  | asleep c =>
    have hrests := hlocking.rests c htarget
    cases c with
    | noRequests => exact absurd hzero hrests.ne'
    | work => simp [State.load, htarget, item, hrests.1] at hload
  | woken c =>
    refine ⟨.target, s.loop, trivial, by simp only [Dispatch.step, htarget], ?_⟩
    exact hless (l := 0) (by simp [State.load, htarget, item]) (load_loop hzero rfl)

/-- Once no lock is asked for, a thread in `mp_dispatch_run` can come out of it. -/
theorem returns_of_completed [DecidableEq α] {i k : Nat} (h : (dispatch α).Reachable s)
    (hzero : s.lockRequests = 0) (hn : (s.client n).waitsFor = some (.completed i))
    (hk : s.load ≤ k) :
    ∃ t, (dispatch α).Leads (Serves (· = n)) s t ∧ t.client n = .at .idle := by
  induction k generalizing s with
  | zero =>
    -- there is nothing left to do, so the item is completed
    have hdone : i ∈ s.completed := by
      obtain hdone | ⟨x, -, -, hx | hx⟩ := (kept_of_reachable h).awaited n i hn
      · exact hdone
      · simp [State.load, hx] at hk
      · have hlength := List.length_pos_of_mem hx
        have hload : 2 * s.queue.length ≤ s.load := Nat.le_add_right _ _
        omega
    cases hp : s.client n with
    | «at» r =>
      rw [hp] at hn
      cases hn
    | asleep c =>
      rw [hp] at hn
      cases hn
      exact absurd hdone ((locking_of_reachable h).awake n _ hp)
    | woken c =>
      rw [hp] at hn
      cases hn
      refine ⟨s.await n i, .single (l := .client n) rfl ?_, ?_⟩
      · simp only [dispatch, Dispatch.step, State.next, hp]
      · simp [State.await, State.goto, hdone]
  | succ k ih =>
    obtain hle | hlt := Nat.lt_or_ge k s.load |>.symm
    · exact ih h hzero hn hle
    obtain ⟨l, t, hl, hs, hzero', hload⟩ := served_of_pending h hzero (by omega)
    have hne : l ≠ .client n := by
      rintro rfl
      exact hl
    obtain ⟨u, hu, hidle⟩ := ih (h.step trivial hs) hzero' (waitsFor_of_step hs hne hn) (by omega)
    exact ⟨u, .head (hl.mono fun _ hfalse => hfalse.elim) hs hu, hidle⟩

/-- A thread in a call asks for the lock, or waits for its item. -/
theorem idle_or_waits (p : Place ClientWait ClientSpot) :
    p = .at .idle ∨ Requests p ∨ ∃ i, p.waitsFor = some (.completed i) := by
  obtain (_ | _ | _) | (_ | _ | i) | (_ | _ | i) := p
  · exact .inl rfl
  · exact .inr (.inl trivial)
  · exact .inr (.inl trivial)
  · exact .inr (.inl trivial)
  · exact .inr (.inl trivial)
  · exact .inr (.inr ⟨i, rfl⟩)
  · exact .inr (.inl trivial)
  · exact .inr (.inl trivial)
  · exact .inr (.inr ⟨i, rfl⟩)

theorem not_requests_of_waitsFor {p : Place ClientWait ClientSpot} {i : Nat}
    (hp : p.waitsFor = some (.completed i)) : ¬ Requests p := by
  obtain (_ | _ | _) | (_ | _ | _) | (_ | _ | _) := p <;> first | exact id | cases hp

/-- From every reachable state, every call of the queue can return: no thread starts anything new,
    the target thread does what it is asked for, and of the others only those go on that are
    ahead of the call. -/
theorem returns_of_reachable [DecidableEq α] (h : (dispatch α).Reachable s) (n : Nat) :
    ∃ t, (dispatch α).Leads (Serves (s.Ahead n)) s t ∧ t.client n = .at .idle := by
  obtain hidle | hrequests | ⟨i, hc⟩ := idle_or_waits (s.client n)
  · exact ⟨s, .refl s, hidle⟩
  · obtain ⟨t, hlead, hheld⟩ := granted_of_reachable h hrequests
    have hunlock : Dispatch.step t (.unlock n) = some (t.unlock n) := if_pos hheld
    refine ⟨t.unlock n, (hlead.mono fun l hl => hl.mono fun m hm => hm.imp_right .inl).trans
      (.single (l := .unlock n) (.inl rfl) hunlock), ?_⟩
    simp [State.unlock, State.goto]
  · have hnot := not_requests_of_waitsFor hc
    obtain ⟨t, hlead, hzero⟩ := cleared h hc (fun p hp => not_requests_of_waitsFor hp) le_rfl
    have hwaits : (t.client n).waitsFor = some (.completed i) :=
      hlead.invariant (I := fun u => (u.client n).waitsFor = some (.completed i)) hc
        fun _ _ l hu hl hs => waitsFor_of_step hs (by rintro rfl; exact hnot hl) hu
    obtain ⟨u, hrest, hidle⟩ := returns_of_completed (h.leads hlead) hzero hwaits le_rfl
    refine ⟨u, .trans (hlead.mono fun l hl => hl.mono fun m hm => ?_)
      (hrest.mono fun l hl => hl.mono fun m hm => .inl hm), hidle⟩
    exact .inr (.inr ⟨⟨i, hc⟩, hm⟩)

/-- A thread waits for its callback behind another one that has the lock. -/
theorem returns_while_waiting : ∃ s t : State Nat,
    s.client 0 = .at .holding ∧ s.client 1 = .asleep (.completed 0) ∧
      (dispatch Nat).Leads (Serves (s.Ahead 1)) s t ∧ t.client 1 = .at .idle := by
  obtain ⟨s, hs, htest⟩ := Machine.Reachable.exec_any
    (.init ⟨true, rfl⟩ : (dispatch Nat).Reachable { hasWakeupFn := true })
    [.process 5, .lock 0, .run 1 7, .client 1, .target]
    (p := fun s => decide (s.client 0 = .at .holding ∧ s.client 1 = .asleep (.completed 0)))
    (by decide +kernel)
  obtain ⟨hheld, hwaits⟩ := of_decide_eq_true htest
  obtain ⟨t, ht, hidle⟩ := returns_of_reachable hs 1
  exact ⟨s, t, hheld, hwaits, ht, hidle⟩

end Dispatch
