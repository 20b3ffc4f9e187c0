-- SUMMARY: The barrier of `misc/rendezvous.c`: that whoever meets another meets one only, and gets its value.
import KitPlayerCore.Transition.Machine
import KitPlayerCore.Transition.Monitor

/-!
# The barrier of mpv

The thread that creates the video output waits at a barrier until the VO thread has set it up. All
waiters of the process are in one list and sleep on one condition variable. A step is one region
under `lock`.
-/

namespace Barrier

open Transition

variable {V : Type}

/-- `struct waiter` on the stack of a thread, and the value that it points to. -/
structure Waiter (V : Type) where
  /-- The call that it belongs to. -/
  call : Nat
  tag : Nat
  value : V
  /-- `wait.value` is not `NULL`. -/
  linked : Bool
  deriving DecidableEq, Repr

/-- The calls are numbered in the order in which they take the lock. -/
structure State (V : Type) where
  /-- The threads whose waiters are in the list. -/
  waiters : List Nat := []
  wait : Nat → Waiter V
  thread : Nat → Place Unit Unit := fun _ => .at ()
  /-- The tag and the value of each call. -/
  calls : List (Nat × V) := []
  /-- The call that has waited, and the one that has come. -/
  met : List (Nat × Nat) := []
  returned : List (Nat × V) := []

inductive Label (V : Type) where
  /-- A thread calls `mp_rendezvous`. -/
  | call (t tag : Nat) (value : V)
  /-- A thread that was woken has the lock again. -/
  | go (t : Nat)
  /-- A thread is woken though there was no broadcast. -/
  | wake (t : Nat)
  deriving DecidableEq, Repr

namespace State

/-- The values are exchanged, and the waiter is taken out of the list. -/
def meet (s : State V) (w tag : Nat) (value : V) : State V :=
  { s with
    calls := s.calls ++ [(tag, value)]
    wait := Function.update s.wait w { s.wait w with value, linked := false }
    waiters := s.waiters.erase w
    thread := fun i => (s.thread i).wake
    met := s.met ++ [((s.wait w).call, s.calls.length)]
    returned := s.returned ++ [(s.calls.length, (s.wait w).value)] }

/-- The thread puts its waiter at the end of the list, and sleeps. -/
def enqueue (s : State V) (t tag : Nat) (value : V) : State V :=
  { s with
    calls := s.calls ++ [(tag, value)]
    wait := Function.update s.wait t ⟨s.calls.length, tag, value, true⟩
    waiters := s.waiters ++ [t]
    thread := Function.update s.thread t (.asleep ()) }

/-- `mp_rendezvous`, up to where it gives the lock away. -/
def call (s : State V) (t tag : Nat) (value : V) : State V :=
  match s.waiters.find? fun w => (s.wait w).tag = tag with
  | some w => s.meet w tag value
  | none => s.enqueue t tag value

/-- The loop of a thread that waits. -/
def go (s : State V) (t : Nat) : State V :=
  if (s.wait t).linked then { s with thread := Function.update s.thread t (.asleep ()) }
  else { s with
    thread := Function.update s.thread t (.at ())
    returned := s.returned ++ [((s.wait t).call, (s.wait t).value)] }

/-- The thread is in its call. -/
def Waits (s : State V) (t : Nat) : Prop := s.thread t ≠ .at ()

/-- The calls that have met, one after the other. -/
def paired (s : State V) : List Nat := s.met.flatMap fun p => [p.1, p.2]

/-- The two calls have met. -/
def Met (s : State V) (c d : Nat) : Prop := (c, d) ∈ s.met ∨ (d, c) ∈ s.met

end State

def step (s : State V) : Label V → Option (State V)
  | .call t tag value => if s.thread t = .at () then some (s.call t tag value) else none
  | .go t => if s.thread t = .woken () then some (s.go t) else none
  | .wake t =>
    if s.thread t = .asleep () then
      some { s with thread := Function.update s.thread t (.woken ()) }
    else none

/-- The stacks may hold anything before. -/
def barrier (V : Type) : Machine (State V) (Label V) where
  init s := ∃ wait, s = { wait }
  step := step

/-! ## The invariant -/

/-- What has been: who has met whom, and who has returned with what. -/
structure Paired (s : State V) : Prop where
  pairs : s.paired.Nodup
  met : ∀ p ∈ s.met, ∃ tag v w, s.calls[p.1]? = some (tag, v) ∧ s.calls[p.2]? = some (tag, w)
  once : (s.returned.map Prod.fst).Nodup
  returned : ∀ r ∈ s.returned, r.1 < s.calls.length ∧
    ∃ d, s.Met r.1 d ∧ (s.calls[d]?).map Prod.snd = some r.2

structure Exchanged (s : State V) : Prop where
  paired : Paired s
  nodup : s.waiters.Nodup
  linked : ∀ t, t ∈ s.waiters ↔ s.Waits t ∧ (s.wait t).linked = true
  tags : ∀ t ∈ s.waiters, ∀ u ∈ s.waiters, (s.wait t).tag = (s.wait u).tag → t = u
  /-- Whoever is in the list has not met anybody. -/
  alone : ∀ t ∈ s.waiters, (s.wait t).call ∉ s.paired ∧
    s.calls[(s.wait t).call]? = some ((s.wait t).tag, (s.wait t).value)
  /-- Whoever is not has the value of the other, and does not sleep. -/
  exchanged : ∀ t, s.Waits t → (s.wait t).linked = false → s.thread t ≠ .asleep () ∧
    ∃ d, ((s.wait t).call, d) ∈ s.met ∧ (s.calls[d]?).map Prod.snd = some (s.wait t).value
  distinct : ∀ t u, s.Waits t → s.Waits u → (s.wait t).call = (s.wait u).call → t = u
  outstanding : ∀ t, s.Waits t → (s.wait t).call ∉ s.returned.map Prod.fst ∧
    (s.wait t).call < s.calls.length
  /-- No call is lost. -/
  kept : ∀ c < s.calls.length, c ∈ s.returned.map Prod.fst ∨ ∃ t, s.Waits t ∧ (s.wait t).call = c

variable {s s' : State V} {t w tag c d : Nat} {v value : V}

theorem getElem?_concat {α : Type} {l : List α} {c : Nat} {x : α} (h : l[c]? = some x) (y : α) :
    (l ++ [y])[c]? = some x := by
  rw [List.getElem?_append_left (List.getElem?_eq_some_iff.mp h).1]
  exact h

theorem map_getElem?_concat {α β : Type} {f : α → β} {l : List α} {c : Nat} {b : β}
    (h : (l[c]?).map f = some b) (y : α) : ((l ++ [y])[c]?).map f = some b := by
  obtain ⟨x, hx, hb⟩ := Option.map_eq_some_iff.mp h
  rw [getElem?_concat hx, Option.map_some, hb]

theorem Paired.paired_lt (h : Paired s) (hc : c ∈ s.paired) : c < s.calls.length := by
  obtain ⟨p, hp, hcp⟩ := List.mem_flatMap.mp hc
  obtain ⟨tag, v, w, hfst, hsnd⟩ := h.met p hp
  rcases List.mem_pair.mp hcp with rfl | rfl
  · exact (List.getElem?_eq_some_iff.mp hfst).1
  · exact (List.getElem?_eq_some_iff.mp hsnd).1

theorem Paired.not_returned (h : Paired s) : s.calls.length ∉ s.returned.map Prod.fst := by
  intro hmem
  obtain ⟨r, hr, heq⟩ := List.mem_map.mp hmem
  have := (h.returned r hr).1
  omega

/-- Another call. -/
theorem Paired.call (h : Paired s) (tag : Nat) (value : V) :
    Paired { s with calls := s.calls ++ [(tag, value)] } := by
  refine ⟨h.pairs, fun p hp => ?_, h.once, fun r hr => ?_⟩
  · obtain ⟨tag', v, w, hfst, hsnd⟩ := h.met p hp
    exact ⟨tag', v, w, getElem?_concat hfst _, getElem?_concat hsnd _⟩
  · obtain ⟨hlt, d, hd, hval⟩ := h.returned r hr
    refine ⟨?_, d, hd, map_getElem?_concat hval _⟩
    rw [List.length_append, List.length_singleton]
    omega

/-- Two calls of one tag meet. -/
theorem Paired.meet (h : Paired s) (hc : c ∉ s.paired) (hd : d ∉ s.paired) (hcd : c ≠ d)
    (hfst : s.calls[c]? = some (tag, v)) (hsnd : s.calls[d]? = some (tag, value)) :
    Paired { s with met := s.met ++ [(c, d)] } := by
  refine ⟨?_, fun p hp => ?_, h.once, fun r hr => ?_⟩
  · have hpaired : State.paired { s with met := s.met ++ [(c, d)] } = s.paired ++ [c, d] := by
      simp [State.paired]
    rw [hpaired]
    refine List.nodup_append.mpr ⟨h.pairs, by simpa using hcd, fun e he f hf => ?_⟩
    rintro rfl
    rcases List.mem_pair.mp hf with rfl | rfl
    · exact hc he
    · exact hd he
  · rcases List.mem_append.mp hp with hp | hp
    · exact h.met p hp
    · rw [List.mem_singleton.mp hp]
      exact ⟨tag, v, value, hfst, hsnd⟩
  · obtain ⟨hlt, e, he, hval⟩ := h.returned r hr
    exact ⟨hlt, e, he.imp (List.mem_append_left _) (List.mem_append_left _), hval⟩

/-- A call that has met another returns. -/
theorem Paired.ret (h : Paired s) (hc : c ∉ s.returned.map Prod.fst) (hlt : c < s.calls.length)
    (hmet : s.Met c d) (hval : (s.calls[d]?).map Prod.snd = some v) :
    Paired { s with returned := s.returned ++ [(c, v)] } := by
  refine ⟨h.pairs, h.met, ?_, fun r hr => ?_⟩
  · have hmap : (s.returned ++ [(c, v)]).map Prod.fst = s.returned.map Prod.fst ++ [c] :=
      List.map_append
    rw [hmap]
    refine List.nodup_append.mpr ⟨h.once, List.nodup_singleton _, fun e he f hf => ?_⟩
    rintro rfl
    exact hc (List.mem_singleton.mp hf ▸ he)
  · rcases List.mem_append.mp hr with hr | hr
    · exact h.returned r hr
    · rw [List.mem_singleton.mp hr]
      exact ⟨hlt, d, hmet, hval⟩

/-! ## Steps -/

/-- A thread comes, and another one of the same tag waits. -/
theorem Exchanged.meet (h : Exchanged s)
    (hfind : (s.waiters.find? fun w => (s.wait w).tag = tag) = some w) :
    Exchanged (s.meet w tag value) := by
  have hw : w ∈ s.waiters := List.mem_of_find?_eq_some hfind
  have htag : (s.wait w).tag = tag := by simpa using List.find?_some hfind
  obtain ⟨hwaits, hlinked⟩ := (h.linked w).mp hw
  obtain ⟨halone, hcall⟩ := h.alone w hw
  have hlt := (h.outstanding w hwaits).2
  set s' := s.meet w tag value with hs'
  have hlength : s'.calls.length = s.calls.length + 1 := List.length_append
  have hnew : s'.calls[s.calls.length]? = some (tag, value) := List.getElem?_concat_length
  have hold : s'.calls[(s.wait w).call]? = some (tag, (s.wait w).value) :=
    htag ▸ getElem?_concat hcall _
  have hreturned : s'.returned.map Prod.fst = s.returned.map Prod.fst ++ [s.calls.length] :=
    List.map_append
  have hpaired : s'.paired = s.paired ++ [(s.wait w).call, s.calls.length] := by
    simp [State.paired, hs', State.meet]
  have hWaits (u : Nat) : s'.Waits u ↔ s.Waits u := not_congr Place.wake_eq_at
  have hself : s'.wait w = { s.wait w with value, linked := false } := Function.update_self ..
  have hother (u : Nat) (hu : u ≠ w) : s'.wait u = s.wait u := Function.update_of_ne hu ..
  have hcalls (u : Nat) : (s'.wait u).call = (s.wait u).call := by
    by_cases hu : u = w
    · rw [hu, hself]
    · rw [hother u hu]
  have hkept (u : Nat) (hu : u ∈ s'.waiters) : u ≠ w ∧ u ∈ s.waiters :=
    (List.Nodup.mem_erase_iff h.nodup).mp hu
  have hmet : Paired { s with
      calls := s.calls ++ [(tag, value)], met := s.met ++ [((s.wait w).call, s.calls.length)] } :=
    (h.paired.call tag value).meet halone (fun hc => Nat.lt_irrefl _ (h.paired.paired_lt hc))
      (Nat.ne_of_lt hlt) hold hnew
  have hpast := hmet.ret (c := s.calls.length) h.paired.not_returned
    (hlength ▸ Nat.lt_succ_self _) (.inr (List.mem_append_right _ List.mem_cons_self))
    (congrArg (Option.map Prod.snd) hold)
  refine ⟨⟨hpast.pairs, hpast.met, hpast.once, hpast.returned⟩, h.nodup.erase w, fun u => ?_,
    fun u hu v hv huv => ?_, fun u hu => ?_,
    fun u hu hul => ⟨(s.thread u).wake_ne_asleep (), ?_⟩, fun u v hu hv huv => ?_,
    fun u hu => ⟨fun hmem => ?_, ?_⟩, fun c hc => ?_⟩
  · by_cases huw : u = w
    · subst huw
      exact iff_of_false (fun hu => (hkept u hu).1 rfl) fun hu => by simp [hself] at hu
    · rw [hWaits, hother u huw, ← h.linked u]
      exact List.mem_erase_of_ne huw
  · obtain ⟨huw, hu⟩ := hkept u hu
    obtain ⟨hvw, hv⟩ := hkept v hv
    rw [hother u huw, hother v hvw] at huv
    exact h.tags u hu v hv huv
  · obtain ⟨huw, hu⟩ := hkept u hu
    obtain ⟨hnot, hcallu⟩ := h.alone u hu
    have hwaitsu := ((h.linked u).mp hu).1
    rw [hother u huw, hpaired]
    refine ⟨fun hmem => ?_, getElem?_concat hcallu _⟩
    rcases List.mem_append.mp hmem with hmem | hmem
    · exact hnot hmem
    · rcases List.mem_pair.mp hmem with heq | heq
      · exact huw (h.distinct u w hwaitsu hwaits heq)
      · exact Nat.ne_of_lt (h.outstanding u hwaitsu).2 heq
  · by_cases huw : u = w
    · rw [huw, hself]
      exact ⟨s.calls.length, List.mem_append_right _ List.mem_cons_self,
        congrArg (Option.map Prod.snd) hnew⟩
    · rw [hother u huw] at hul ⊢
      obtain ⟨-, d, hd, hval⟩ := h.exchanged u ((hWaits u).mp hu) hul
      exact ⟨d, List.mem_append_left _ hd, map_getElem?_concat hval _⟩
  · rw [hcalls, hcalls] at huv
    exact h.distinct u v ((hWaits u).mp hu) ((hWaits v).mp hv) huv
  · obtain ⟨hnot, hltu⟩ := h.outstanding u ((hWaits u).mp hu)
    rw [hcalls, hreturned] at hmem
    rcases List.mem_append.mp hmem with hmem | hmem
    · exact hnot hmem
    · exact Nat.ne_of_lt hltu (List.mem_singleton.mp hmem)
  · rw [hcalls, hlength]
    exact Nat.lt_succ_of_lt (h.outstanding u ((hWaits u).mp hu)).2
  · rw [hlength] at hc
    rw [hreturned, List.mem_append, List.mem_singleton]
    rcases Nat.lt_succ_iff_lt_or_eq.mp hc with hc | hc
    · refine (h.kept c hc).imp .inl ?_
      rintro ⟨u, hu, hcall⟩
      exact ⟨u, (hWaits u).mpr hu, (hcalls u).trans hcall⟩
    · exact .inl (.inr hc)

/-- A thread comes, and waits. -/
theorem Exchanged.enqueue (h : Exchanged s) (ht : s.thread t = .at ())
    (hfind : (s.waiters.find? fun w => (s.wait w).tag = tag) = none) :
    Exchanged (s.enqueue t tag value) := by
  have hnone (u : Nat) (hu : u ∈ s.waiters) : (s.wait u).tag ≠ tag := by
    simpa using List.find?_eq_none.mp hfind u hu
  have hnot : t ∉ s.waiters := fun hmem => ((h.linked t).mp hmem).1 ht
  set s' := s.enqueue t tag value with hs'
  have hlength : s'.calls.length = s.calls.length + 1 := List.length_append
  have hself : s'.wait t = ⟨s.calls.length, tag, value, true⟩ := Function.update_self ..
  have hother (u : Nat) (hu : u ≠ t) : s'.wait u = s.wait u := Function.update_of_ne hu ..
  have hplace (u : Nat) (hu : u ≠ t) : s'.thread u = s.thread u := Function.update_of_ne hu ..
  have hWaits (u : Nat) (hu : u ≠ t) (hw : s'.Waits u) : s.Waits u := by
    rwa [State.Waits, hplace u hu] at hw
  have hmem (u : Nat) (hu : u ∈ s'.waiters) : u = t ∨ u ≠ t ∧ u ∈ s.waiters := by
    rcases List.mem_append.mp hu with hu | hu
    · exact .inr ⟨fun hut => hnot (hut ▸ hu), hu⟩
    · exact .inl (List.mem_singleton.mp hu)
  have hfresh (u : Nat) (hut : u ≠ t) (hu : s'.Waits u) : (s.wait u).call ≠ s.calls.length :=
    Nat.ne_of_lt (h.outstanding u (hWaits u hut hu)).2
  have hpast := h.paired.call tag value
  refine ⟨⟨hpast.pairs, hpast.met, hpast.once, hpast.returned⟩, ?_, fun u => ?_,
    fun u hu v hv huv => ?_, fun u hu => ?_, fun u hu hul => ?_, fun u v hu hv huv => ?_,
    fun u hu => ?_, fun c hc => ?_⟩
  · exact List.nodup_append.mpr ⟨h.nodup, List.nodup_singleton _, fun u hu v hv => by
      rintro rfl
      exact hnot (List.mem_singleton.mp hv ▸ hu)⟩
  · by_cases hut : u = t
    · subst hut
      simp [hs', State.Waits, State.enqueue]
    · rw [hother u hut, State.Waits, hplace u hut, ← State.Waits, ← h.linked u]
      simp [hs', State.enqueue, hut]
  · rcases hmem u hu with rfl | ⟨hut, hu⟩ <;> rcases hmem v hv with hvt | ⟨hvt, hv⟩
    · exact hvt.symm
    · rw [hself, hother v hvt] at huv
      exact absurd huv.symm (hnone v hv)
    · rw [hvt, hother u hut, hself] at huv
      exact absurd huv (hnone u hu)
    · rw [hother u hut, hother v hvt] at huv
      exact h.tags u hu v hv huv
  · rcases hmem u hu with rfl | ⟨hut, hu⟩
    · rw [hself]
      exact ⟨fun hc => Nat.lt_irrefl _ (h.paired.paired_lt hc), List.getElem?_concat_length⟩
    · rw [hother u hut]
      exact ⟨(h.alone u hu).1, getElem?_concat (h.alone u hu).2 _⟩
  · have hut : u ≠ t := by
      rintro rfl
      simp [hself] at hul
    rw [hother u hut] at hul ⊢
    obtain ⟨hasleep, d, hd, hval⟩ := h.exchanged u (hWaits u hut hu) hul
    exact ⟨hplace u hut ▸ hasleep, d, hd, map_getElem?_concat hval _⟩
  · by_cases hut : u = t <;> by_cases hvt : v = t
    · rw [hut, hvt]
    · rw [hut, hself, hother v hvt] at huv
      exact absurd huv.symm (hfresh v hvt hv)
    · rw [hvt, hself, hother u hut] at huv
      exact absurd huv (hfresh u hut hu)
    · rw [hother u hut, hother v hvt] at huv
      exact h.distinct u v (hWaits u hut hu) (hWaits v hvt hv) huv
  · rw [hlength]
    by_cases hut : u = t
    · rw [hut, hself]
      exact ⟨h.paired.not_returned, Nat.lt_succ_self _⟩
    · rw [hother u hut]
      obtain ⟨hnotmem, hlt⟩ := h.outstanding u (hWaits u hut hu)
      exact ⟨hnotmem, Nat.lt_succ_of_lt hlt⟩
  · rw [hlength] at hc
    rcases Nat.lt_succ_iff_lt_or_eq.mp hc with hc | hc
    · refine (h.kept c hc).imp_right ?_
      rintro ⟨u, hu, hcall⟩
      have hut : u ≠ t := fun hut => hu (hut ▸ ht)
      refine ⟨u, ?_, (hother u hut) ▸ hcall⟩
      rwa [State.Waits, hplace u hut]
    · refine .inr ⟨t, by simp [State.Waits, hs', State.enqueue], ?_⟩
      rw [hself, hc]

/-- A thread in its call falls asleep or is woken. -/
theorem Exchanged.move {p : Place Unit Unit} (h : Exchanged s) (ht : s.Waits t) (hp : p ≠ .at ())
    (hasleep : (s.wait t).linked = false → p ≠ .asleep ()) :
    Exchanged { s with thread := Function.update s.thread t p } := by
  have hWaits (u : Nat) :
      State.Waits { s with thread := Function.update s.thread t p } u ↔ s.Waits u := by
    by_cases hut : u = t
    · subst hut
      simp only [State.Waits, Function.update_self]
      exact iff_of_true hp ht
    · simp only [State.Waits, Function.update_of_ne hut]
  refine ⟨⟨h.paired.pairs, h.paired.met, h.paired.once, h.paired.returned⟩, h.nodup,
    fun u => ?_, h.tags, h.alone, fun u hu hul => ?_, fun u v hu hv => ?_,
    fun u hu => h.outstanding u ((hWaits u).mp hu), fun c hc => (h.kept c hc).imp_right ?_⟩
  · rw [hWaits]
    exact h.linked u
  · obtain ⟨hu', hexchanged⟩ := h.exchanged u ((hWaits u).mp hu) hul
    refine ⟨?_, hexchanged⟩
    by_cases hut : u = t
    · subst hut
      simpa using hasleep hul
    · simpa [hut] using hu'
  · exact h.distinct u v ((hWaits u).mp hu) ((hWaits v).mp hv)
  · rintro ⟨u, hu, hcall⟩
    exact ⟨u, (hWaits u).mpr hu, hcall⟩

/-- A thread that has met another returns. -/
theorem Exchanged.leave (h : Exchanged s) (ht : s.Waits t) (hlinked : (s.wait t).linked = false) :
    Exchanged { s with
      thread := Function.update s.thread t (.at ())
      returned := s.returned ++ [((s.wait t).call, (s.wait t).value)] } := by
  obtain ⟨hnew, hlt⟩ := h.outstanding t ht
  obtain ⟨-, d, hd, hval⟩ := h.exchanged t ht hlinked
  set s' : State V := { s with
    thread := Function.update s.thread t (.at ())
    returned := s.returned ++ [((s.wait t).call, (s.wait t).value)] } with hs'
  have hWaits (u : Nat) (hu : s'.Waits u) : u ≠ t ∧ s.Waits u := by
    have hut : u ≠ t := by
      rintro rfl
      simp [State.Waits, hs'] at hu
    simp only [State.Waits, hs', Function.update_of_ne hut] at hu
    exact ⟨hut, hu⟩
  have hpast := h.paired.ret hnew hlt (.inl hd) hval
  have hreturned : s'.returned.map Prod.fst = s.returned.map Prod.fst ++ [(s.wait t).call] :=
    List.map_append
  refine ⟨⟨hpast.pairs, hpast.met, hpast.once, hpast.returned⟩, h.nodup, fun u => ?_, h.tags,
    h.alone, fun u hu hul => ?_,
    fun u v hu hv => h.distinct u v (hWaits u hu).2 (hWaits v hv).2, fun u hu => ?_,
    fun c hc => ?_⟩
  · refine (h.linked u).trans ⟨fun hu => ⟨?_, hu.2⟩, fun hu => ⟨(hWaits u hu.1).2, hu.2⟩⟩
    have hut : u ≠ t := by
      rintro rfl
      simp [hlinked] at hu
    simp only [State.Waits, hs', Function.update_of_ne hut]
    exact hu.1
  · obtain ⟨hut, hu⟩ := hWaits u hu
    obtain ⟨hasleep, hexchanged⟩ := h.exchanged u hu hul
    exact ⟨by simpa [hs', hut] using hasleep, hexchanged⟩
  · obtain ⟨hut, hu⟩ := hWaits u hu
    obtain ⟨hnot, hltu⟩ := h.outstanding u hu
    rw [hreturned]
    refine ⟨fun hmem => ?_, hltu⟩
    rcases List.mem_append.mp hmem with hmem | hmem
    · exact hnot hmem
    · exact hut (h.distinct u t hu ht (List.mem_singleton.mp hmem))
  · rw [hreturned, List.mem_append, List.mem_singleton]
    rcases h.kept c hc with hmem | ⟨u, hu, rfl⟩
    · exact .inl (.inl hmem)
    · by_cases hut : u = t
      · exact .inl (.inr (congrArg (fun v => (s.wait v).call) hut))
      · refine .inr ⟨u, ?_, rfl⟩
        simpa only [State.Waits, hs', Function.update_of_ne hut] using hu

theorem exchanged_of_init (wait : Nat → Waiter V) : Exchanged { wait } where
  paired := ⟨List.nodup_nil, fun p hp => by simp at hp, List.nodup_nil, fun r hr => by simp at hr⟩
  nodup := List.nodup_nil
  linked t := by simp [State.Waits]
  tags t ht := by simp at ht
  alone t ht := by simp at ht
  exchanged t ht := absurd rfl ht
  distinct t u ht := absurd rfl ht
  outstanding t ht := absurd rfl ht
  kept c hc := by simp at hc

theorem exchanged_of_step {l : Label V} (hstep : step s l = some s') (h : Exchanged s) :
    Exchanged s' := by
  cases l with
  | call t tag value =>
    obtain ⟨ht, ⟨⟩⟩ := Option.ite_none_right_eq_some.mp hstep
    cases hfind : s.waiters.find? fun w => (s.wait w).tag = tag with
    | some w => simpa only [State.call, hfind] using h.meet hfind
    | none => simpa only [State.call, hfind] using h.enqueue ht hfind
  | go t =>
    obtain ⟨ht, ⟨⟩⟩ := Option.ite_none_right_eq_some.mp hstep
    have hwaits : s.Waits t := by simp [State.Waits, ht]
    cases hlinked : (s.wait t).linked with
    | true =>
      simpa only [State.go, hlinked, if_true] using h.move hwaits (by simp) (by simp [hlinked])
    | false => simpa [State.go, hlinked] using h.leave hwaits hlinked
  | wake t =>
    obtain ⟨ht, ⟨⟩⟩ := Option.ite_none_right_eq_some.mp hstep
    exact h.move (by simp [State.Waits, ht]) (by simp) (by simp)

theorem exchanged_of_reachable (h : (barrier V).Reachable s) : Exchanged s := by
  refine h.invariant ?_ fun _ _ _ he _ hstep => exchanged_of_step hstep he
  rintro _ ⟨wait, rfl⟩
  exact exchanged_of_init wait

/-! ## Results -/

theorem Exchanged.mem_of_asleep (h : Exchanged s) (ht : s.thread t = .asleep ()) :
    t ∈ s.waiters := by
  have hwaits : s.Waits t := by simp [State.Waits, ht]
  refine (h.linked t).mpr ⟨hwaits, ?_⟩
  by_contra hlinked
  exact (h.exchanged t hwaits (by simpa using hlinked)).1 ht

/-- Whoever waits though its call has met another was woken. -/
theorem Exchanged.woken_of_paired (h : Exchanged s) (hwaits : s.Waits t)
    (hc : (s.wait t).call ∈ s.paired) :
    s.thread t = .woken () ∧ (s.wait t).linked = false := by
  have hlinked : (s.wait t).linked = false := by
    by_contra hlinked
    exact (h.alone t ((h.linked t).mpr ⟨hwaits, by simpa using hlinked⟩)).1 hc
  refine ⟨?_, hlinked⟩
  cases hp : s.thread t with
  | «at» r => exact absurd hp hwaits
  | asleep c => exact absurd hp (h.exchanged t hwaits hlinked).1
  | woken c => rfl

/-- What was returned is the value of the call that was met. -/
theorem Paired.exchanged (h : Paired s) {r : Nat × V} (hr : r ∈ s.returned) :
    ∃ d tag v, s.Met r.1 d ∧ s.calls[r.1]? = some (tag, v) ∧ s.calls[d]? = some (tag, r.2) := by
  obtain ⟨-, d, hmet, hval⟩ := h.returned r hr
  obtain ⟨⟨tag, w⟩, hd, rfl⟩ := Option.map_eq_some_iff.mp hval
  rcases hmet with hmem | hmem <;> obtain ⟨tag', v, w', hfst, hsnd⟩ := h.met _ hmem
  · cases hd.symm.trans hsnd
    exact ⟨d, tag, v, .inl hmem, hfst, hd⟩
  · cases hd.symm.trans hfst
    exact ⟨d, tag, w', .inr hmem, hsnd, hd⟩

/-- A call returns at most once, and with the value of the one call that it has met, which has the
    same tag. Whoever has met another returns or is about to, and whoever sleeps is alone with its
    tag. -/
theorem exchanges_of_reachable (h : (barrier V).Reachable s) :
    (s.returned.map Prod.fst).Nodup ∧ s.paired.Nodup ∧
      (∀ r ∈ s.returned, ∃ d tag v, s.Met r.1 d ∧ s.calls[r.1]? = some (tag, v) ∧
        s.calls[d]? = some (tag, r.2)) ∧
      (∀ c ∈ s.paired, c ∈ s.returned.map Prod.fst ∨
        ∃ t, s.thread t = .woken () ∧ (s.wait t).call = c ∧ (s.wait t).linked = false) ∧
      ∀ t u, s.thread t = .asleep () → s.thread u = .asleep () →
        (s.wait t).tag = (s.wait u).tag → t = u := by
  have he := exchanged_of_reachable h
  refine ⟨he.paired.once, he.paired.pairs, fun r hr => he.paired.exchanged hr, fun c hc => ?_,
    fun t u ht hu htag => he.tags t (he.mem_of_asleep ht) u (he.mem_of_asleep hu) htag⟩
  refine (he.kept c (he.paired.paired_lt hc)).imp_right ?_
  rintro ⟨t, hwaits, rfl⟩
  obtain ⟨hwoken, hlinked⟩ := he.woken_of_paired hwaits hc
  exact ⟨t, hwoken, rfl, hlinked⟩

/-- Two threads meet while a third waits at another barrier. -/
theorem exchanges_after_meeting : ∃ s : State Int, s.returned = [(2, 0), (0, -1)] ∧
    ∃ d tag v, s.Met 0 d ∧ s.calls[0]? = some (tag, v) ∧ s.calls[d]? = some (tag, -1) := by
  obtain ⟨s, hs, htest⟩ := Machine.Reachable.exec_any
    (.init ⟨fun _ => ⟨0, 0, 0, false⟩, rfl⟩ :
      (barrier Int).Reachable { wait := fun _ => ⟨0, 0, 0, false⟩ })
    [.call 0 7 0, .call 1 8 5, .wake 0, .go 0, .call 2 7 (-1), .go 1, .go 0]
    (p := fun s => decide (s.returned = [(2, 0), (0, -1)])) (by decide +kernel)
  have hreturned : s.returned = [(2, 0), (0, -1)] := of_decide_eq_true htest
  exact ⟨s, hreturned,
    (exchanges_of_reachable hs).2.2.1 (0, -1) (by simp [hreturned])⟩

end Barrier
