-- SUMMARY: That a client that sleeps was told what the properties are that it observes, however their changes, the reading of them and the events for them interleave.
import KitPlayerCore.Mpv.ObserveRefs

/-!
# What the client was told

A property has two debts. A value that was announced and not read is owed by the core, and
`has_pending_properties` is set or the loop of the core is still in front of it. A value that was
read and not given is owed by the client, and `new_property_events` is set or `cur_property_index`
is in front of it. A client does not sleep on a debt of its own, if it has looked for an event since
the core is initialized, and if no other thread takes its wakeups.
-/

namespace Observe

open Transition

variable {φ V : Type} {s s' : State φ V} {p : Nat}

/-- The value that was read is the one of the last announced change. -/
def ObserveProperty.Read (x : ObserveProperty φ V) : Prop := x.valueTs = x.changeTs

/-- The value that was given is the one that was read. -/
def ObserveProperty.Given (x : ObserveProperty φ V) : Prop := x.valueRetTs = x.valueTs

instance (x : ObserveProperty φ V) : Decidable x.Given := inferInstanceAs (Decidable (_ = _))

/-- A thread waits for events and will not look for any unless it is woken. -/
def State.Waits (s : State φ V) : Prop :=
  s.needWakeup = false ∧ (s.waiter = .asleep () ∨ s.waiter = .at .waking)

structure Tracked (s : State φ V) : Prop where
  order : ∀ p ∈ s.properties, (s.heap p).valueRetTs ≤ (s.heap p).valueTs ∧
    (s.heap p).valueTs ≤ (s.heap p).changeTs ∧ 0 < (s.heap p).changeTs
  world : ∀ p ∈ s.properties, s.world (s.heap p).name ∈ s.since p
  value : ∀ p ∈ s.properties, (s.heap p).Read →
    ∀ f, (s.heap p).format = some f → ∃ x ∈ s.since p, (s.heap p).value = x f
  told : ∀ p ∈ s.properties, (s.heap p).Given → (s.heap p).valueTs ≠ 0 →
    (s.told p).getLast? = some (s.heap p).value
  /-- The client has not passed what it is yet to be given, or it will start again. -/
  index : ∀ n p, s.properties[n]? = some p → ¬(s.heap p).Given →
    s.newPropertyEvents = true ∨ s.curPropertyIndex ≤ n
  /-- The core wakes it when it comes to the end of its loop. -/
  waits : s.lookedEarly = false → s.Waits →
    ∀ p ∈ s.properties, (s.heap p).Given ∨ s.newPropertyEvents = true
  asleep : s.waiter = .asleep () → s.needWakeup = false
  /-- Nobody waits for events and for replies at the same time. -/
  alone : s.waiter = .at .outside ∨ ∀ n, s.settlers n = .at .outside

/-- The loop of the core has come to the index `n`. -/
def State.Sends (s : State φ V) (n : Nat) : Prop :=
  ∀ m p, s.properties[m]? = some p → ¬(s.heap p).Read → s.hasPendingProperties = true ∨ n ≤ m

/-- The core is outside of its loop. -/
structure Settled (s : State φ V) : Prop where
  pending : ∀ p ∈ s.properties, ¬(s.heap p).Read → s.hasPendingProperties = true
  given : s.lookedEarly = false → s.Waits → ∀ p ∈ s.properties, (s.heap p).Given

/-- The core reads a property. -/
structure InReading (s : State φ V) (r : Reading V) : Prop where
  sends : s.Sends r.index
  unread : ¬(s.heap r.prop).Read
  format : ∃ f, (s.heap r.prop).format = some f ∧
    ∀ val, r.found = some val → ∃ x ∈ s.since r.prop, val = x f

structure Owed (s : State φ V) : Prop where
  tracked : Tracked s
  settled : s.reading = none → Settled s
  reading : ∀ r, s.Reads r → InReading s r

/-! ## References do not matter -/

def State.forget (s : State φ V) : State φ V :=
  { s with
    heap := fun p => { s.heap p with refcount := 0 }
    curProperty := none
    asyncCounter := 0
    failed := false }

theorem tracked_forget : Tracked s.forget ↔ Tracked s :=
  ⟨fun h => ⟨h.order, h.world, h.value, h.told, h.index, h.waits, h.asleep, h.alone⟩,
    fun h => ⟨h.order, h.world, h.value, h.told, h.index, h.waits, h.asleep, h.alone⟩⟩

/-- What was told does not depend on what is pending. -/
theorem Tracked.pending (h : Tracked s) (pending : Bool) :
    Tracked { s with hasPendingProperties := pending } :=
  ⟨h.order, h.world, h.value, h.told, h.index, h.waits, h.asleep, h.alone⟩

theorem Owed.of_forget (h : Owed s.forget) : Owed s where
  tracked := tracked_forget.mp h.tracked
  settled hr := ⟨(h.settled hr).pending, (h.settled hr).given⟩
  reading r hr := ⟨(h.reading r hr).sends, (h.reading r hr).unread, (h.reading r hr).format⟩

theorem Owed.forget (h : Owed s) : Owed s.forget where
  tracked := tracked_forget.mpr h.tracked
  settled hr := ⟨(h.settled hr).pending, (h.settled hr).given⟩
  reading r hr := ⟨(h.reading r hr).sends, (h.reading r hr).unread, (h.reading r hr).format⟩

theorem State.forget_modify (s : State φ V) (p : Nat)
    (f : ObserveProperty φ V → ObserveProperty φ V)
    (hf : ∀ x, { f { x with refcount := 0 } with refcount := 0 } = { f x with refcount := 0 }) :
    (s.modify p f).forget = { s.forget with
      heap := Function.update s.forget.heap p { f (s.forget.heap p) with refcount := 0 } } := by
  simp only [forget, modify, State.mk.injEq, and_true]
  funext q
  by_cases hqp : q = p
  · subst hqp
    simp [hf]
  · simp [hqp]

@[simp] theorem State.forget_ref (s : State φ V) (p : Nat) : (s.ref p).forget = s.forget := by
  rw [ref, forget_modify _ _ _ fun _ => rfl]
  simp [forget]

@[simp] theorem State.forget_unref (s : State φ V) (p : Nat) : (s.unref p).forget = s.forget := by
  rw [unref, forget_modify _ _ _ fun _ => rfl]
  simp [forget]

@[simp] theorem State.forget_unrefAll (s : State φ V) (ps : List Nat) :
    (s.unrefAll ps).forget = s.forget := by
  induction ps generalizing s with
  | nil => rfl
  | cons p ps ih => rw [unrefAll, List.foldl_cons, ← unrefAll, ih, forget_unref]

/-- The client lets go of one event, and takes hold of another. -/
@[simp] theorem State.forget_letGo (s : State φ V) (c : Option Nat) :
    State.forget { s.curProperty.elim s s.unref with curProperty := c } = s.forget := by
  have helim : (s.curProperty.elim s s.unref).forget = s.forget := by
    cases s.curProperty with
    | none => rfl
    | some p => exact s.forget_unref p
  rw [← helim]
  rfl

theorem Tracked.congr {t : State φ V} (h : Tracked t) (heq : s.forget = t.forget) : Tracked s := by
  rw [← tracked_forget, heq]
  exact tracked_forget.mpr h

theorem Owed.congr {t : State φ V} (h : Owed t) (heq : s.forget = t.forget) : Owed s :=
  .of_forget (heq ▸ h.forget)

/-! ## Changes -/

theorem State.announce_heap (s : State φ V) (changed : Nat → Bool) (p : Nat) :
    (s.announce changed).heap p =
      if p ∈ s.properties ∧ changed (s.heap p).name then
        { s.heap p with changeTs := (s.heap p).changeTs + 1 }
      else s.heap p := rfl

/-- The core does not read while a change is announced. -/
theorem Owed.announce (h : Owed s) (changed : Nat → Bool) (hread : s.reading = none) :
    Owed (s.announce changed) := by
  have hgiven (p : Nat) : ((s.announce changed).heap p).Given ↔ (s.heap p).Given := by
    rw [State.announce_heap]
    split <;> rfl
  have hvalueTs (p : Nat) : ((s.announce changed).heap p).valueTs = (s.heap p).valueTs := by
    rw [State.announce_heap]
    split <;> rfl
  -- What was announced is not read yet.
  have hunread (p : Nat) (hp : p ∈ s.properties) (hc : changed (s.heap p).name = true) :
      ¬((s.announce changed).heap p).Read := by
    rw [State.announce_heap, if_pos ⟨hp, hc⟩]
    have := (h.tracked.order p hp).2.1
    simp only [ObserveProperty.Read]
    omega
  refine ⟨⟨fun p hp => ?_, fun p hp => ?_, fun p hp hr => ?_, fun p hp hg hv => ?_,
    fun n p hn hg => ?_, fun hl hw p hp => ?_, h.tracked.asleep, h.tracked.alone⟩,
    fun _ => ⟨fun p hp hr => ?_, fun hl hw p hp => ?_⟩, ?_⟩
  · have := h.tracked.order p hp
    rw [State.announce_heap]
    split
    · exact ⟨this.1, Nat.le_succ_of_le this.2.1, Nat.succ_pos _⟩
    · exact this
  · rw [State.announce_heap]
    simp only [State.announce]
    split
    · exact List.mem_singleton_self _
    · exact h.tracked.world p hp
  · by_cases hc : changed (s.heap p).name = true
    · exact absurd hr (hunread p hp hc)
    · rw [State.announce_heap, if_neg fun hpc => hc hpc.2] at hr ⊢
      simp only [State.announce, if_neg fun hpc : _ ∧ _ => hc hpc.2]
      exact h.tracked.value p hp hr
  · rw [hgiven] at hg
    rw [hvalueTs] at hv
    rw [State.announce_heap]
    split <;> exact h.tracked.told p hp hg hv
  · rw [hgiven] at hg
    exact h.tracked.index n p hn hg
  · rw [hgiven]
    exact h.tracked.waits hl hw p hp
  · simp only [State.announce, Bool.or_eq_true, List.any_eq_true]
    by_cases hc : changed (s.heap p).name = true
    · exact .inr ⟨p, hp, hc⟩
    · rw [State.announce_heap, if_neg fun hpc => hc hpc.2] at hr
      exact .inl ((h.settled hread).pending p hp hr)
  · rw [hgiven]
    exact (h.settled hread).given hl hw p hp
  · rintro r ⟨hr, -⟩
    exact absurd (hread.symm.trans hr) (by simp)

theorem Owed.drift (h : Owed s) (name : Nat) (x : φ → Option V) : Owed (s.drift name x) := by
  have hsince (p : Nat) (y : φ → Option V) (hy : y ∈ s.since p) : y ∈ (s.drift name x).since p := by
    simp only [State.drift]
    split
    · exact List.mem_append_left _ hy
    · exact hy
  refine ⟨⟨h.tracked.order, fun p hp => ?_, fun p hp hr f hf => ?_, h.tracked.told,
    h.tracked.index, h.tracked.waits, h.tracked.asleep, h.tracked.alone⟩,
    fun hr => ⟨(h.settled hr).pending, (h.settled hr).given⟩, fun r hr => ?_⟩
  · by_cases hname : (s.heap p).name = name
    · simp [State.drift, hname]
    · simpa [State.drift, hname] using h.tracked.world p hp
  · obtain ⟨y, hy, hval⟩ := h.tracked.value p hp hr f hf
    exact ⟨y, hsince p y hy, hval⟩
  · obtain ⟨hsends, hunread, f, hf, hfound⟩ := h.reading r hr
    refine ⟨hsends, hunread, f, hf, fun val hval => ?_⟩
    obtain ⟨y, hy, hval⟩ := hfound val hval
    exact ⟨y, hsince _ y hy, hval⟩

/-! ## Observing -/

theorem Owed.observe {table : Table} {name : Nat} {userdata : UInt64} {format : Option φ}
    (h : Owed s) (hc : Counted s) : Owed (s.observe table name userdata format) := by
  set x : ObserveProperty φ V :=
    { name, replyId := userdata, format, refcount := 1, changeTs := 1, valueTs := 0, value := none,
      valueRetTs := 0 } with hx
  have hheap (p : Nat) : (s.observe table name userdata format).heap p =
      if p = s.allocated then x else s.heap p := by
    simp [State.observe, Function.update_apply, hx]
  have hsince (p : Nat) : (s.observe table name userdata format).since p =
      if p = s.allocated then [s.world name] else s.since p := by
    simp [State.observe, Function.update_apply]
  -- The cell of the new property is not one of the others.
  have hcases (p : Nat) (hp : p ∈ (s.observe table name userdata format).properties) :
      p = s.allocated ∨ p ≠ s.allocated ∧ p ∈ s.properties := by
    rcases List.mem_append.mp hp with hp | hp
    · exact .inr ⟨Nat.ne_of_lt (hc.allocated p hp), hp⟩
    · exact .inl (List.mem_singleton.mp hp)
  refine ⟨⟨fun p hp => ?_, fun p hp => ?_, fun p hp hr => ?_, fun p hp hg hv => ?_,
    fun _ _ _ _ => .inl rfl, fun _ _ _ _ => .inr rfl, h.tracked.asleep, h.tracked.alone⟩,
    fun hread => ⟨fun _ _ _ => rfl, fun hl hw p hp => ?_⟩, fun r hr => ?_⟩
  · rcases hcases p hp with rfl | ⟨hne, hp⟩
    · simp [hheap, hx]
    · rw [hheap, if_neg hne]
      exact h.tracked.order p hp
  · rcases hcases p hp with rfl | ⟨hne, hp⟩
    · simp [State.observe]
    · rw [hheap, hsince, if_neg hne, if_neg hne]
      exact h.tracked.world p hp
  · rcases hcases p hp with rfl | ⟨hne, hp⟩
    · simp [hheap, hx, ObserveProperty.Read] at hr
    · rw [hheap, if_neg hne] at hr ⊢
      rw [hsince, if_neg hne]
      exact h.tracked.value p hp hr
  · rcases hcases p hp with rfl | ⟨hne, hp⟩
    · simp [hheap, hx] at hv
    · rw [hheap, if_neg hne] at hg hv ⊢
      exact h.tracked.told p hp hg hv
  · rcases hcases p hp with rfl | ⟨hne, hp⟩
    · simp [hheap, hx, ObserveProperty.Given]
    · rw [hheap, if_neg hne]
      exact (h.settled hread).given hl hw p hp
  · -- The core will start again.
    obtain ⟨hread, hts, -⟩ := hr
    have := (hc.read r hread).2
    simp only [State.observe] at hts
    omega

/-- Some of the properties are not observed any more. -/
theorem Owed.remove {kept : List Nat} {ts : Nat} (h : Owed s) (hc : Counted s)
    (hkept : kept ⊆ s.properties) (hts : s.propertiesChangeTs < ts) :
    Owed { s with properties := kept, propertiesChangeTs := ts, curPropertyIndex := 0 } := by
  refine ⟨⟨fun p hp => h.tracked.order p (hkept hp),
    fun p hp => h.tracked.world p (hkept hp), fun p hp => h.tracked.value p (hkept hp),
    fun p hp => h.tracked.told p (hkept hp), fun n _ _ _ => .inr (Nat.zero_le n),
    fun hl hw p hp => h.tracked.waits hl hw p (hkept hp), h.tracked.asleep, h.tracked.alone⟩,
    fun hread => ?_, fun r hr => ?_⟩
  · exact ⟨fun p hp => (h.settled hread).pending p (hkept hp),
      fun hl hw p hp => (h.settled hread).given hl hw p (hkept hp)⟩
  · obtain ⟨hread, hcurTs, -⟩ := hr
    have := (hc.read r hread).2
    dsimp only at hcurTs
    omega

theorem Owed.unobserve {userdata : UInt64} (h : Owed s) (hc : Counted s) :
    Owed (s.unobserve userdata) := by
  unfold State.unobserve
  dsimp only
  split
  · exact h
  case isFalse hremoved =>
    have hlength : 0 < _ := List.length_pos_iff.mpr hremoved
    set removed := s.properties.reverse.filter fun p => (s.heap p).replyId = userdata
    set kept := s.properties.filter fun p => (s.heap p).replyId ≠ userdata
    have hkept : kept ⊆ s.properties := fun p hp => List.mem_of_mem_filter hp
    refine (h.remove hc hkept (Nat.lt_add_of_pos_right hlength)).congr ?_
    exact congrArg (fun t : State φ V => { t with
      properties := kept
      propertiesChangeTs := s.propertiesChangeTs + removed.length
      curPropertyIndex := 0 }) (s.forget_unrefAll removed)

theorem Owed.destroy (h : Owed s) : Owed s.destroy := by
  have hempty : Owed { s with
      destroying := true, properties := [], propertiesChangeTs := s.propertiesChangeTs + 1 } := by
    refine ⟨⟨by rintro _ ⟨⟩, by rintro _ ⟨⟩, by rintro _ ⟨⟩, by rintro _ ⟨⟩, ?_,
      fun _ _ => by rintro _ ⟨⟩, h.tracked.asleep, h.tracked.alone⟩,
      fun _ => ⟨by rintro _ ⟨⟩, fun _ _ => by rintro _ ⟨⟩⟩, ?_⟩
    · rintro n p hn
      simp at hn
    · rintro r ⟨-, -, ⟨⟩⟩
  refine hempty.congr ?_
  have hunref := s.forget_unrefAll s.properties
  unfold State.destroy
  set s' : State φ V := { s.unrefAll s.properties with
    destroying := true, properties := [], propertiesChangeTs := s.propertiesChangeTs + 1 }
  have hs' : s'.forget = State.forget { s with
      destroying := true, properties := [], propertiesChangeTs := s.propertiesChangeTs + 1 } :=
    congrArg (fun t : State φ V => { t with
      destroying := true, properties := [], propertiesChangeTs := s.propertiesChangeTs + 1 }) hunref
  rw [← hs']
  exact s'.forget_letGo none

/-! ## The core -/

/-- The core comes to the end of its loop. -/
theorem Owed.sent (h : Tracked s) (hread : s.reading = none)
    (hpending : ∀ p ∈ s.properties, ¬(s.heap p).Read → s.hasPendingProperties = true) :
    Owed s.sent := by
  have hreads (t : State φ V) (ht : t.reading = none) (r : Reading V) (hr : t.Reads r) :
      InReading t r := absurd (ht.symm.trans hr.1) (by simp)
  unfold State.sent
  split
  · rw [wakeupClient_eq]
    have hwaits {P : Prop} (hw : State.Waits { s with
        needWakeup := true
        waiter := if s.needWakeup then s.waiter else s.waiter.wake
        settlers := fun n => if s.needWakeup then s.settlers n else (s.settlers n).wake }) : P :=
      absurd hw.1 (by simp)
    refine ⟨⟨h.order, h.world, h.value, h.told, h.index, fun _ => hwaits, fun hasleep => ?_, ?_⟩,
      fun _ => ⟨hpending, fun _ => hwaits⟩, hreads _ hread⟩
    · dsimp only at hasleep
      split at hasleep
      case isTrue hneed =>
        have := h.asleep hasleep
        simp [hneed] at this
      case isFalse => exact absurd hasleep (by simp)
    · refine h.alone.imp (fun hout => ?_) fun hout n => ?_
      · simp [hout]
      · simp [hout n]
  case isFalse hquiet =>
    have hnew : s.newPropertyEvents ≠ true := fun hnew => hquiet (by simp [hnew])
    exact ⟨h, fun _ => ⟨hpending, fun hl hw p hp => (h.waits hl hw p hp).resolve_right hnew⟩,
      hreads _ hread⟩

/-- The loop goes on to the next index. -/
theorem State.Sends.next {t : State φ V} {x : ObserveProperty φ V} {n : Nat} (h : s.Sends n)
    (hn : s.properties[n]? = some p) (hheap : t.heap = Function.update s.heap p x)
    (hprops : t.properties = s.properties)
    (hpending : t.hasPendingProperties = s.hasPendingProperties) (hread : x.Read) :
    t.Sends (n + 1) := by
  intro m q hm hq
  rw [hprops] at hm
  rw [hheap, Function.update_apply] at hq
  rw [hpending]
  by_cases hqp : q = p
  · exact absurd hread (by rwa [if_pos hqp] at hq)
  · rw [if_neg hqp] at hq
    refine (h m q hm hq).imp_right fun hle => Nat.lt_of_le_of_ne hle ?_
    rintro rfl
    exact hqp (Option.some.inj (hm.symm.trans hn))

/-- What the core has read is stored, as `x`. It is given to the client, or was given to it already,
    or the client was still to be given the same. -/
theorem Tracked.stored {x : ObserveProperty φ V} {new : Bool} (h : Tracked s)
    (hunread : ¬(s.heap p).Read)
    (hname : x.name = (s.heap p).name) (hchange : x.changeTs = (s.heap p).changeTs)
    (hread : x.Read) (hvalue : ∀ f, x.format = some f → ∃ y ∈ s.since p, x.value = y f)
    (hnew : x.valueRetTs = (s.heap p).valueRetTs ∧ new = true ∨
      new = s.newPropertyEvents ∧
        if (s.heap p).Given then x.Given ∧ (s.heap p).valueTs ≠ 0 ∧ x.value = (s.heap p).value
        else x.valueRetTs = (s.heap p).valueRetTs) :
    Tracked { s with heap := Function.update s.heap p x, newPropertyEvents := new } := by
  have hheap (q : Nat) : Function.update s.heap p x q = if q = p then x else s.heap q := by
    rw [Function.update_apply]
  have hmono : s.newPropertyEvents = true → new = true := by
    rcases hnew with ⟨-, hnew⟩ | ⟨hnew, -⟩
    · exact fun _ => hnew
    · exact fun h => hnew.trans h
  -- What is stored is given only if nothing has changed.
  have hgiven (hp : p ∈ s.properties) (hg : x.Given) :
      (s.heap p).Given ∧ (s.heap p).valueTs ≠ 0 ∧ x.value = (s.heap p).value := by
    obtain ⟨hret, hle, -⟩ := h.order p hp
    have hlate (hsame : x.valueRetTs = (s.heap p).valueRetTs) : False := by
      simp only [ObserveProperty.Given, ObserveProperty.Read] at hg hread hunread
      omega
    rcases hnew with ⟨hsame, -⟩ | ⟨-, hsame⟩
    · exact (hlate hsame).elim
    · split at hsame
      case isTrue hg => exact ⟨hg, hsame.2⟩
      case isFalse => exact (hlate hsame).elim
  have hnotGiven (hg : ¬x.Given) : new = true ∨ ¬(s.heap p).Given := by
    rcases hnew with ⟨-, hnew⟩ | ⟨-, hsame⟩
    · exact .inl hnew
    · refine .inr fun hgp => hg ?_
      rw [if_pos hgp] at hsame
      exact hsame.1
  refine ⟨fun q hq => ?_, fun q hq => ?_, fun q hq hr => ?_, fun q hq hg hv => ?_,
    fun n q hn hg => ?_, fun hl hw q hq => ?_, h.asleep, h.alone⟩
  · dsimp only
    rw [hheap]
    split
    case isTrue hqp =>
      subst hqp
      obtain ⟨hret, hle, hpos⟩ := h.order q hq
      rw [ObserveProperty.Read] at hread
      refine ⟨?_, hread.le, hchange ▸ hpos⟩
      rcases hnew with ⟨hsame, -⟩ | ⟨-, hsame⟩
      · omega
      · split at hsame
        · exact hsame.1.le
        · omega
    case isFalse => exact h.order q hq
  · dsimp only
    rw [hheap]
    split
    case isTrue hqp =>
      subst hqp
      exact hname ▸ h.world q hq
    case isFalse => exact h.world q hq
  · dsimp only at hr ⊢
    rw [hheap] at hr ⊢
    split at hr
    case isTrue hqp =>
      subst hqp
      simpa using hvalue
    case isFalse hqp =>
      rw [if_neg hqp]
      exact h.value q hq hr
  · dsimp only at hg hv ⊢
    rw [hheap] at hg hv ⊢
    split at hg
    case isTrue hqp =>
      subst hqp
      obtain ⟨hgq, hvq, hsame⟩ := hgiven hq hg
      rw [if_pos rfl, hsame]
      exact h.told q hq hgq hvq
    case isFalse hqp =>
      rw [if_neg hqp] at hv ⊢
      exact h.told q hq hg hv
  · dsimp only at hg ⊢
    rw [hheap] at hg
    split at hg
    case isTrue hqp =>
      subst hqp
      exact (hnotGiven hg).elim .inl fun hg => (h.index n q hn hg).imp_left hmono
    case isFalse => exact (h.index n q hn hg).imp_left hmono
  · dsimp only
    rw [hheap]
    split
    case isTrue hqp =>
      subst hqp
      refine or_iff_not_imp_left.mpr fun hg => (hnotGiven hg).elim id fun hg => ?_
      exact hmono ((h.waits hl hw q hq).resolve_left hg)
    case isFalse => exact (h.waits hl hw q hq).imp_right hmono

theorem Owed.walk {ps : List Nat} {n : Nat} (h : Tracked s) (hread : s.reading = none)
    (hsends : s.Sends n) (hps : s.properties.drop n = ps) : Owed (s.walk n ps) := by
  induction ps generalizing s n with
  | nil =>
    refine Owed.sent h hread fun p hp hunread => ?_
    obtain ⟨m, hm⟩ := List.mem_iff_getElem?.mp hp
    refine (hsends m p hm hunread).resolve_right fun hle => ?_
    have := (List.getElem?_eq_some_iff.mp hm).1
    have := List.drop_eq_nil_iff.mp hps
    omega
  | cons p ps ih =>
    have hnext : s.properties.drop (n + 1) = ps := by
      rw [← List.drop_drop, hps, List.drop_one, List.tail_cons]
    have hn : s.properties[n]? = some p := by
      rw [← Nat.add_zero n, ← List.getElem?_drop, hps, List.getElem?_cons_zero]
    unfold State.walk
    dsimp only
    split
    case isTrue hval => exact ih h hread (hsends.next hn (by simp) rfl rfl hval) hnext
    case isFalse hunread =>
    split
    case h_1 f hf =>
      have hreading : Owed { s with reading := some ⟨n, s.propertiesChangeTs, p, none⟩ } := by
        refine ⟨⟨h.order, h.world, h.value, h.told, h.index, h.waits, h.asleep, h.alone⟩,
          by rintro ⟨⟩, ?_⟩
        rintro r ⟨⟨⟩, -⟩
        exact ⟨hsends, hunread, f, hf, by rintro _ ⟨⟩⟩
      exact hreading.congr (congrArg (fun t : State φ V =>
        { t with reading := some ⟨n, s.propertiesChangeTs, p, none⟩ }) (s.forget_ref p))
    case h_2 hf =>
      have hstored := h.stored (x := { s.heap p with valueTs := (s.heap p).changeTs }) hunread
        rfl rfl rfl (fun f hf' => absurd (hf.symm.trans hf') (by simp)) (.inl ⟨rfl, rfl⟩)
      exact ih hstored hread (hsends.next hn rfl rfl rfl rfl) hnext

/-- A value is stored, even if it is not another one. -/
theorem State.store_value [DecidableEq V] (x : ObserveProperty φ V) (val : Option V) :
    (store x val).value = val := by
  unfold store changed
  cases x.value <;> cases val <;> simp

theorem State.value_of_not_changed [DecidableEq V] {x : ObserveProperty φ V} {val : Option V}
    (h : changed x val = false) : x.valueTs ≠ 0 ∧ val = x.value := by
  unfold changed at h
  cases hx : x.value <;> cases val <;> simp_all

/-- What is stored is to be given, or it is what was given already, or it was to be given before. -/
theorem State.store_cases [DecidableEq V] (x : ObserveProperty φ V) (val : Option V) (new : Bool) :
    (store x val).valueRetTs = x.valueRetTs ∧ (new || changed x val) = true ∨
      (new || changed x val) = new ∧
        if x.Given then (store x val).Given ∧ x.valueTs ≠ 0 ∧ (store x val).value = x.value
        else (store x val).valueRetTs = x.valueRetTs := by
  cases hchanged : changed x val with
  | true => exact .inl ⟨by simp [store, hchanged], Bool.or_true _⟩
  | false =>
    obtain ⟨hne, rfl⟩ := value_of_not_changed hchanged
    refine .inr ⟨Bool.or_false _, ?_⟩
    split
    case isTrue hg =>
      have hret : x.valueRetTs = x.valueTs := hg
      exact ⟨by simp [ObserveProperty.Given, store, hchanged, hret], hne, store_value x _⟩
    case isFalse hg =>
      have hret : x.valueRetTs ≠ x.valueTs := hg
      simp [store, hchanged, hret]

theorem Owed.relock [DecidableEq V] {r : Reading V} {val : Option V} (h : Owed s) (hc : Counted s)
    (hr : s.reading = some r) (hfound : r.found = some val) : Owed (s.relock r val) := by
  have hback : Tracked { s with reading := none } :=
    ⟨h.tracked.order, h.tracked.world, h.tracked.value, h.tracked.told, h.tracked.index,
      h.tracked.waits, h.tracked.asleep, h.tracked.alone⟩
  set s' := { s with asyncCounter := s.asyncCounter - 1, reading := none }.unref r.prop with hs'
  have heq : s'.forget = State.forget { s with reading := none } := State.forget_unref _ _
  have htracked : Tracked s' := hback.congr heq
  unfold State.relock
  simp only [← hs']
  split
  · exact Owed.sent (htracked.pending true) rfl fun _ _ _ => rfl
  case isFalse hsame =>
    obtain ⟨hts, hdestroying⟩ := not_or.mp hsame
    have hreads : s.Reads r := ⟨hr, not_not.mp hts, Bool.eq_false_iff.mpr hdestroying⟩
    obtain ⟨hsends, hunread, f, hf, hval⟩ := h.reading r hreads
    have hsends' : s'.forget.Sends r.index := heq ▸ hsends
    have hunread' : ¬(s'.forget.heap r.prop).Read := heq ▸ hunread
    have hf' : (s'.forget.heap r.prop).format = some f := heq ▸ hf
    have hstored := htracked.stored (p := r.prop) (x := State.store (s'.heap r.prop) val)
      hunread' rfl rfl rfl (fun g hg => ?_) (State.store_cases (s'.heap r.prop) val _)
    · refine Owed.walk (hstored.congr rfl) rfl ?_ rfl
      exact State.Sends.next (s := s') hsends' (hc.index r hreads) rfl rfl rfl rfl
    · obtain rfl : f = g := Option.some.inj (hf'.symm.trans hg)
      rw [State.store_value]
      exact hval val hfound

/-! ## The client -/

/-- The client stops at the first property that is to be given, or comes to the end. -/
theorem State.seek_cases (s : State φ V) (ps : List Nat) :
    (∃ n p, ps[n]? = some p ∧ ¬(s.heap p).Given ∧
      (∀ m q, m < n → ps[m]? = some q → (s.heap q).Given) ∧
      s.seek ps = ({ s with curPropertyIndex := s.curPropertyIndex + n + 1 }.give p, true)) ∨
    (∀ q ∈ ps, (s.heap q).Given) ∧
      s.seek ps = ({ s with curPropertyIndex := s.curPropertyIndex + ps.length }, false) := by
  induction ps generalizing s with
  | nil => exact .inr ⟨by simp, rfl⟩
  | cons p ps ih =>
    unfold seek
    dsimp only
    split
    case isTrue hg => exact .inl ⟨0, p, rfl, hg, by simp, rfl⟩
    case isFalse hg =>
      have hgiven : (s.heap p).Given := not_not.mp hg
      rcases ih { s with curPropertyIndex := s.curPropertyIndex + 1 } with
        ⟨n, q, hn, hq, hbefore, heq⟩ | ⟨hall, heq⟩
      · refine .inl ⟨n + 1, q, hn, hq, fun m r hm hr => ?_, ?_⟩
        · cases m with
          | zero => exact Option.some.inj hr ▸ hgiven
          | succ m => exact hbefore m r (Nat.lt_of_succ_lt_succ hm) hr
        · rw [heq, Nat.add_right_comm s.curPropertyIndex 1 n, Nat.add_assoc s.curPropertyIndex n 1]
      · refine .inr ⟨List.forall_mem_cons.mpr ⟨hgiven, hall⟩, ?_⟩
        rw [heq, List.length_cons, Nat.add_assoc s.curPropertyIndex, Nat.add_comm 1]

/-- What `gen_property_change_event` comes to. It finds the first property that is to be given from
    `cur_property_index` on, or from the start, if it has passed one since. -/
theorem State.gen_cases (s : State φ V) (hinit : s.initialized = true) :
    (∃ n p new, s.properties[n]? = some p ∧ ¬(s.heap p).Given ∧
      s.genPropertyChangeEvent =
        ({ s with curPropertyIndex := n + 1, newPropertyEvents := new }.give p, true) ∧
      (new = s.newPropertyEvents ∧ s.curPropertyIndex ≤ n ∧
          (∀ m q, s.curPropertyIndex ≤ m → m < n → s.properties[m]? = some q → (s.heap q).Given) ∨
        (∀ m q, m < n ∨ s.curPropertyIndex ≤ m → s.properties[m]? = some q → (s.heap q).Given))) ∨
    ∃ n new, s.genPropertyChangeEvent =
        ({ s with curPropertyIndex := n, newPropertyEvents := new }, false) ∧
      (∀ m q, s.curPropertyIndex ≤ m → s.properties[m]? = some q → (s.heap q).Given) ∧
      (s.newPropertyEvents = true → ∀ q ∈ s.properties, (s.heap q).Given) := by
  unfold genPropertyChangeEvent
  rw [if_pos hinit]
  rcases s.seek_cases (s.properties.drop s.curPropertyIndex) with
    ⟨n, p, hn, hp, hbefore, heq⟩ | ⟨hall, heq⟩
  · rw [List.getElem?_drop] at hn
    refine .inl ⟨s.curPropertyIndex + n, p, s.newPropertyEvents, hn, hp, by rw [heq]; rfl,
      .inl ⟨rfl, Nat.le_add_right _ _, fun m q hle hlt hq => hbefore (m - s.curPropertyIndex) q
        (by omega) ?_⟩⟩
    rw [List.getElem?_drop, Nat.add_sub_cancel' hle]
    exact hq
  have hrest (m q : Nat) (hle : s.curPropertyIndex ≤ m) (hq : s.properties[m]? = some q) :
      (s.heap q).Given := by
    refine hall q (List.mem_of_getElem? (i := m - s.curPropertyIndex) ?_)
    rw [List.getElem?_drop, Nat.add_sub_cancel' hle]
    exact hq
  rw [heq]
  dsimp only
  rw [if_neg Bool.false_ne_true]
  split
  case isTrue hnew =>
    rcases State.seek_cases { s with newPropertyEvents := false, curPropertyIndex := 0 }
      s.properties with ⟨n, p, hn, hp, hbefore, heq⟩ | ⟨hall, heq⟩
    · refine .inl ⟨n, p, false, hn, hp, by simpa using heq, .inr fun m q hm hq => ?_⟩
      exact hm.elim (fun hm => hbefore m q hm hq) fun hm => hrest m q hm hq
    · exact .inr ⟨_, false, heq, hrest, fun _ => hall⟩
  case isFalse hnew =>
    refine .inr ⟨_, s.newPropertyEvents, rfl, hrest, fun h q hq => ?_⟩
    exact absurd ⟨h, List.ne_nil_of_mem hq⟩ hnew

theorem State.forget_give (s : State φ V) (p : Nat) :
    (s.give p).forget = { s.forget with
      heap := fun q => { s.forget.heap q with
        valueRetTs := if q = p then (s.heap q).valueTs else (s.heap q).valueRetTs }
      told := Function.update s.told p (s.told p ++ [(s.heap p).value]) } := by
  set t := s.modify p fun x => { x with valueRetTs := x.valueTs } with ht
  set u := { t.curProperty.elim t t.unref with curProperty := some p }.ref p with hu
  have hheld : u.forget = { s.forget with heap := fun q => { s.forget.heap q with
      valueRetTs := if q = p then (s.heap q).valueTs else (s.heap q).valueRetTs } } := by
    rw [hu, forget_ref, forget_letGo, ht, forget_modify _ _ _ fun _ => rfl]
    simp only [forget, State.mk.injEq, and_true]
    funext q
    by_cases hqp : q = p
    · subst hqp
      simp
    · simp [hqp]
  have hvalue : (u.forget.heap p).value = (s.heap p).value := by
    rw [hheld]
    rfl
  have htold : u.forget.told = s.told := by
    rw [hheld]
    rfl
  unfold give
  simp only [← ht, ← hu]
  rw [show u.told = s.told from htold, show (u.heap p).value = (s.heap p).value from hvalue]
  exact congrArg (fun u : State φ V => { u with
    told := Function.update s.told p (s.told p ++ [(s.heap p).value]) }) hheld

/-- The client is given the value of the property, and returns with it. -/
theorem Owed.give {n : Nat} {new early : Bool} (h : Owed s) (hn : s.properties[n]? = some p)
    (hpassed : ∀ m q, s.properties[m]? = some q → ¬(s.heap q).Given → new = true ∨ n ≤ m) :
    Owed { { s with curPropertyIndex := n + 1, newPropertyEvents := new }.give p with
      waiter := .at .outside, lookedEarly := early } := by
  set t : State φ V := { s with
    heap := fun q => { s.heap q with
      valueRetTs := if q = p then (s.heap q).valueTs else (s.heap q).valueRetTs }
    curPropertyIndex := n + 1
    newPropertyEvents := new
    waiter := .at .outside
    lookedEarly := early
    told := Function.update s.told p (s.told p ++ [(s.heap p).value]) } with ht
  have hwaits {P : Prop} (hw : t.Waits) : P := absurd hw.2 (by simp [ht])
  have hgiven (q : Nat) (hqp : q ≠ p) : (t.heap q).Given ↔ (s.heap q).Given := by
    simp [ht, ObserveProperty.Given, hqp]
  have howed : Owed t := by
    refine ⟨⟨fun q hq => ?_, h.tracked.world, h.tracked.value, fun q hq hg hv => ?_,
      fun m q hm hg => ?_, fun _ => hwaits, fun hasleep => absurd hasleep (by simp [ht]), .inl rfl⟩,
      fun hread => ⟨(h.settled hread).pending, fun _ => hwaits⟩, fun r hr => ?_⟩
    · obtain ⟨hret, hrest⟩ := h.tracked.order q hq
      refine ⟨?_, hrest⟩
      simp only [ht]
      split
      · exact Nat.le_refl _
      · exact hret
    · by_cases hqp : q = p
      · subst hqp
        simp [ht]
      · rw [hgiven q hqp] at hg
        simp only [ht, Function.update_of_ne hqp]
        exact h.tracked.told q hq hg hv
    · have hqp : q ≠ p := by
        rintro rfl
        exact hg (by simp [ht, ObserveProperty.Given])
      rw [hgiven q hqp] at hg
      refine (hpassed m q hm hg).imp_right fun hle => Nat.lt_of_le_of_ne hle ?_
      rintro rfl
      exact hqp (Option.some.inj (hm.symm.trans hn))
    · obtain ⟨hsends, hunread, hformat⟩ := h.reading r hr
      exact ⟨hsends, hunread, hformat⟩
  refine howed.congr ?_
  exact congrArg (fun t : State φ V => { t with waiter := .at .outside, lookedEarly := early })
    (State.forget_give _ p)

/-- The client finds nothing, and is about to wait. -/
theorem Owed.findsNothing {n : Nat} {new early : Bool} (h : Owed s)
    (hfree : ∀ n, s.settlers n = .at .outside)
    (hindex : ∀ m q, s.properties[m]? = some q → ¬(s.heap q).Given → new = true ∨ n ≤ m)
    (hall : early = false → ∀ q ∈ s.properties, (s.heap q).Given) :
    Owed { s with
      curPropertyIndex := n
      newPropertyEvents := new
      waiter := .at .waking
      lookedEarly := early } := by
  refine ⟨⟨h.tracked.order, h.tracked.world, h.tracked.value, h.tracked.told, hindex,
    fun hl _ q hq => .inl (hall hl q hq), by rintro ⟨⟩, .inr hfree⟩,
    fun hread => ⟨(h.settled hread).pending, fun hl _ => hall hl⟩, fun r hr => ?_⟩
  obtain ⟨hsends, hunread, hformat⟩ := h.reading r hr
  exact ⟨hsends, hunread, hformat⟩

theorem Owed.look (h : Owed s) (hfree : ∀ n, s.settlers n = .at .outside) : Owed s.look := by
  unfold State.look
  cases hinit : s.initialized with
  | false =>
    have hgen : s.genPropertyChangeEvent = (s, false) := if_neg (by simp [hinit])
    simp only [hgen, Bool.false_eq_true, if_false]
    exact h.findsNothing hfree h.tracked.index (by rintro ⟨⟩)
  | true =>
    rcases s.gen_cases hinit with ⟨n, p, new, hn, hp, heq, hpassed⟩ | ⟨n, new, heq, hrest, hnew⟩
    · simp only [heq, if_true]
      refine h.give hn fun m q hm hq => ?_
      rcases hpassed with ⟨hnew, hle, hbetween⟩ | hall
      · refine (h.tracked.index m q hm hq).imp (fun h => hnew.trans h) fun hcur => ?_
        by_contra hlt
        exact hq (hbetween m q hcur (Nat.lt_of_not_le hlt) hm)
      · refine .inr ?_
        by_contra hlt
        exact hq (hall m q (.inl (Nat.lt_of_not_le hlt)) hm)
    · simp only [heq, Bool.false_eq_true, if_false]
      have hall (q : Nat) (hq : q ∈ s.properties) : (s.heap q).Given := by
        obtain ⟨m, hm⟩ := List.mem_iff_getElem?.mp hq
        by_contra hg
        exact (h.tracked.index m q hm hg).elim (fun h => hg (hnew h q hq)) fun hle =>
          hg (hrest m q hle hm)
      exact h.findsNothing hfree
        (fun m q hm hg => absurd (hall q (List.mem_of_getElem? hm)) hg) fun _ => hall

/-- The thread goes where it is not waiting, or it sleeps if nobody has asked it not to. -/
theorem Owed.move {w : Place Unit Spot} {need : Bool} (h : Owed s)
    (halone : w = .at .outside ∨ ∀ n, s.settlers n = .at .outside)
    (hasleep : w = .asleep () → need = false)
    (hwaits : need = false → w = .asleep () ∨ w = .at .waking → s.Waits) :
    Owed { s with waiter := w, needWakeup := need } := by
  refine ⟨⟨h.tracked.order, h.tracked.world, h.tracked.value, h.tracked.told, h.tracked.index,
    fun hl hw => h.tracked.waits hl (hwaits hw.1 hw.2), hasleep, halone⟩,
    fun hread => ⟨(h.settled hread).pending, fun hl hw =>
      (h.settled hread).given hl (hwaits hw.1 hw.2)⟩, fun r hr => ?_⟩
  obtain ⟨hsends, hunread, hformat⟩ := h.reading r hr
  exact ⟨hsends, hunread, hformat⟩

/-- Other threads wait for replies, while the client is outside. -/
theorem Owed.settle {settlers : Nat → Place Unit Spot} {need : Bool} (h : Owed s)
    (hout : s.waiter = .at .outside) :
    Owed { s with settlers := settlers, needWakeup := need } := by
  have hwaits {P : Prop}
      (hw : State.Waits { s with settlers := settlers, needWakeup := need }) : P :=
    absurd hw.2 (by simp [hout])
  refine ⟨⟨h.tracked.order, h.tracked.world, h.tracked.value, h.tracked.told, h.tracked.index,
    fun _ => hwaits, fun hasleep => ?_, .inl hout⟩,
    fun hread => ⟨(h.settled hread).pending, fun _ => hwaits⟩, fun r hr => ?_⟩
  · cases hout.symm.trans hasleep
  · obtain ⟨hsends, hunread, hformat⟩ := h.reading r hr
    exact ⟨hsends, hunread, hformat⟩

/-! ## Runs -/

/-- Changes are announced by the core, which does not do so while it reads a property. And while the
    client waits for events, no thread waits for replies. -/
def Undisturbed (s : State φ V) : Label φ V → Prop
  | .change _ | .event _ => s.reading = none
  | .wait => ∀ n, s.settlers n = .at .outside
  | .settle _ _ => s.waiter = .at .outside
  | _ => True

theorem owed_of_init [DecidableEq V] {table : Table} (h : (observing φ V table).init s) :
    Owed s := by
  obtain ⟨heap, world, rfl⟩ := h
  refine ⟨⟨by rintro _ ⟨⟩, by rintro _ ⟨⟩, by rintro _ ⟨⟩, by rintro _ ⟨⟩, ?_,
    fun _ _ => by rintro _ ⟨⟩, by rintro ⟨⟩, .inl rfl⟩,
    fun _ => ⟨by rintro _ ⟨⟩, fun _ _ => by rintro _ ⟨⟩⟩, by rintro r ⟨⟨⟩, -⟩⟩
  rintro n p hn
  simp at hn

theorem owed_of_step [DecidableEq V] {table : Table} {l : Label φ V}
    (hstep : step table s l = some s') (hg : Undisturbed s l) (hc : Counted s) (h : Owed s) :
    Owed s' := by
  -- whoever waits for events is not met by those who wait for replies
  have hfree (hne : s.waiter ≠ .at .outside) : ∀ n, s.settlers n = .at .outside :=
    h.tracked.alone.resolve_left hne
  have hout {n : Nat} (hne : s.settlers n ≠ .at .outside) : s.waiter = .at .outside :=
    h.tracked.alone.resolve_right fun hall => hne (hall n)
  cases l <;> simp only [step, Option.ite_none_right_eq_some, Option.ite_none_left_eq_some,
    Option.some.injEq] at hstep
  case mpInitialize =>
    subst hstep
    refine ⟨⟨h.tracked.order, h.tracked.world, h.tracked.value, h.tracked.told, h.tracked.index,
      h.tracked.waits, h.tracked.asleep, h.tracked.alone⟩,
      fun hread => ⟨(h.settled hread).pending, (h.settled hread).given⟩, fun r hr => ?_⟩
    obtain ⟨hsends, hunread, hformat⟩ := h.reading r hr
    exact ⟨hsends, hunread, hformat⟩
  case drift =>
    subst hstep
    exact h.drift _ _
  case change =>
    obtain ⟨-, rfl⟩ := hstep
    exact h.announce _ hg
  case event =>
    obtain ⟨-, rfl⟩ := hstep
    unfold State.event
    split
    · exact h
    · exact h.announce _ hg
  case observe =>
    obtain ⟨-, rfl⟩ := hstep
    exact h.observe hc
  case unobserve =>
    obtain ⟨-, rfl⟩ := hstep
    exact h.unobserve hc
  case send =>
    obtain ⟨⟨-, -, hread⟩, rfl⟩ := hstep
    exact Owed.walk (h.tracked.pending false) hread (fun m _ _ _ => .inr (Nat.zero_le m))
      List.drop_zero
  case read =>
    split at hstep
    case h_1 r hr =>
      simp only [Option.ite_none_right_eq_some, Option.some.injEq] at hstep
      obtain ⟨-, rfl⟩ := hstep
      refine ⟨⟨h.tracked.order, h.tracked.world, h.tracked.value, h.tracked.told, h.tracked.index,
        h.tracked.waits, h.tracked.asleep, h.tracked.alone⟩, by rintro ⟨⟩, ?_⟩
      rintro _ ⟨⟨⟩, hts, hd⟩
      obtain ⟨hsends, hunread, f, hf, -⟩ := h.reading r ⟨hr, hts, hd⟩
      have hmem : r.prop ∈ s.properties := List.mem_of_getElem? (hc.index r ⟨hr, hts, hd⟩)
      refine ⟨hsends, hunread, f, hf, ?_⟩
      rintro val hval
      dsimp only at hval
      rw [hf, Option.some.injEq] at hval
      exact ⟨_, h.tracked.world _ hmem, hval.symm⟩
    case h_2 => cases hstep
  case relock =>
    split at hstep
    case h_1 hr =>
      cases hstep
      exact h.relock hc hr rfl
    case h_2 => cases hstep
  case wait =>
    obtain ⟨-, rfl⟩ := hstep
    exact h.look hg
  case waiter =>
    split at hstep
    case h_1 hw =>
      cases hstep
      exact h.look (hfree (by simp [hw]))
    case h_2 hw =>
      cases hstep
      have halone := hfree (by simp [hw])
      unfold State.waitWakeup
      split
      case isTrue => exact h.move (.inr halone) (by rintro ⟨⟩) (by simp)
      case isFalse hneed =>
        exact h.move (.inr halone) (fun _ => Bool.eq_false_iff.mpr hneed)
          fun hneed _ => ⟨hneed, .inr hw⟩
    case h_3 hw =>
      cases hstep
      exact h.move (.inr (hfree (by simp [hw]))) (by rintro ⟨⟩) (by simp)
    all_goals cases hstep
  case other =>
    split at hstep <;> cases hstep
    exact h.move (.inl rfl) (by rintro ⟨⟩) (by simp)
  case wakeWaiter =>
    split at hstep <;> cases hstep
    rename_i hw
    exact h.move (.inr (hfree (by simp [hw]))) (fun hw => absurd hw (by simp))
      fun hneed hw => by simp_all
  case settle =>
    obtain ⟨-, rfl⟩ := hstep
    exact h.settle hg
  case settler n _ =>
    unfold State.settler at hstep
    split at hstep <;> cases hstep
    case h_1 hn =>
      have hout := hout (n := n) (by simp [hn])
      split <;> exact h.settle hout
    case h_2 hn => exact h.settle (hout (n := n) (by simp [hn]))
    case h_3 hn => exact h.settle (hout (n := n) (by simp [hn]))
  case settlerTimeout n | wakeSettler n =>
    split at hstep <;> cases hstep
    all_goals
      rename_i hn
      exact h.settle (hout (n := n) (by simp [hn]))
  case destroy =>
    obtain ⟨-, rfl⟩ := hstep
    exact h.destroy
  case free =>
    obtain ⟨-, rfl⟩ := hstep
    exact ⟨⟨h.tracked.order, h.tracked.world, h.tracked.value, h.tracked.told, h.tracked.index,
      h.tracked.waits, h.tracked.asleep, h.tracked.alone⟩,
      fun hread => ⟨(h.settled hread).pending, (h.settled hread).given⟩,
      fun r hr => ⟨(h.reading r hr).sends, (h.reading r hr).unread, (h.reading r hr).format⟩⟩

theorem owed_of_under [DecidableEq V] {table : Table}
    (h : (observing φ V table).Under Undisturbed s) : Owed s :=
  h.invariant_of (fun _ hu => counted_of_reachable hu.reachable) (fun _ => owed_of_init)
    fun _ _ _ hc ho hg hstep => owed_of_step hstep hg hc ho

/-- When a client sleeps that has looked for an event since the core is initialized, and the core has
    nothing to read for it, then the value that the client was told last for a property is one that
    the property has had since its last change that was announced. -/
theorem told_of_asleep [DecidableEq V] {table : Table}
    (h : (observing φ V table).Under Undisturbed s) (hasleep : s.waiter = .asleep ())
    (hlooked : s.lookedEarly = false) (hpending : s.hasPendingProperties = false)
    (hread : s.reading = none) :
    ∀ p ∈ s.properties, (s.heap p).valueRetTs = (s.heap p).changeTs ∧
      ∃ val, (s.told p).getLast? = some val ∧
        ∀ f, (s.heap p).format = some f → ∃ x ∈ s.since p, val = x f := by
  have ho := owed_of_under h
  intro p hp
  have hsettled := ho.settled hread
  have hgiven : (s.heap p).Given :=
    hsettled.given hlooked ⟨ho.tracked.asleep hasleep, .inl hasleep⟩ p hp
  have hr : (s.heap p).Read := by
    by_contra hunread
    have := hsettled.pending p hp hunread
    simp [hpending] at this
  have hne : (s.heap p).valueTs ≠ 0 := by
    have := (ho.tracked.order p hp).2.2
    rw [ObserveProperty.Read] at hr
    omega
  refine ⟨hgiven.trans hr, (s.heap p).value, ho.tracked.told p hp hgiven hne, fun f hf => ?_⟩
  exact ho.tracked.value p hp hr f hf

/-- A client of which nothing is known. -/
theorem undisturbed_new : (observing Unit ℕ ⟨id, fun _ => 0⟩).Under Undisturbed
    { heap := fun _ => ⟨0, 0, none, 0, 0, 0, none, 0⟩, world := fun _ _ => some 5 } :=
  .init ⟨_, _, rfl⟩

/-- A property is read before the core is initialized, it changes while the client sleeps, and the
    client is told both. -/
theorem told_after_change : ∃ s : State Unit ℕ, s.properties = [0] ∧ s.told 0 = [some 5, some 8] ∧
    (s.heap 0).valueRetTs = (s.heap 0).changeTs ∧ ∃ x ∈ s.since 0, some 8 = x () := by
  obtain ⟨s, hs, ⟨hasleep, hlooked, hpending, hread⟩, hprops, htold, hformat⟩ := undisturbed_new.may
    (P := fun s => (s.waiter = .asleep () ∧ s.lookedEarly = false ∧
      s.hasPendingProperties = false ∧ s.reading = none) ∧ s.properties = [0] ∧
      s.told 0 = [some 5, some 8] ∧ (s.heap 0).format = some ())
    (.step (l := .observe 3 7 (some ())) trivial rfl <| .step (l := .send) trivial rfl <|
      .step (l := .read) trivial rfl <| .step (l := .relock) trivial rfl <|
      .step (l := .mpInitialize) trivial rfl <| .step (l := .wait) (fun _ => rfl) rfl <|
      .step (l := .wait) (fun _ => rfl) rfl <| .step (l := .waiter) trivial rfl <|
      .step (l := .waiter) trivial rfl <| .step (l := .waiter) trivial rfl <|
      .step (l := .drift 3 fun _ => some 8) trivial rfl <| .step (l := .change 3) rfl rfl <|
      .step (l := .send) trivial rfl <| .step (l := .read) trivial rfl <|
      .step (l := .relock) trivial rfl <| .step (l := .waiter) trivial rfl <|
      .step (l := .waiter) trivial rfl <| .step (l := .wait) (fun _ => rfl) rfl <|
      .step (l := .waiter) trivial rfl <| .now ⟨⟨rfl, rfl, rfl, rfl⟩, rfl, rfl, rfl⟩)
  obtain ⟨hts, val, hlast, hval⟩ :=
    told_of_asleep hs hasleep hlooked hpending hread 0 (by simp [hprops])
  obtain rfl : some 8 = val := by simpa [htold] using hlast
  exact ⟨s, hprops, htold, hts, hval () hformat⟩

/-- A client that has looked for an event too early may sleep on, though the core is initialized and
    the property was read. -/
theorem untold_while_early : ∃ s : State Unit ℕ,
    (observing Unit ℕ ⟨id, fun _ => 0⟩).Under Undisturbed s ∧
      (s.initialized = true ∧ s.waiter = .asleep () ∧ s.hasPendingProperties = false ∧
        s.reading = none) ∧ s.properties = [0] ∧ s.told 0 = [] :=
  undisturbed_new.may
    (.step (l := .observe 3 7 (some ())) trivial rfl <| .step (l := .send) trivial rfl <|
      .step (l := .read) trivial rfl <| .step (l := .relock) trivial rfl <|
      .step (l := .wait) (fun _ => rfl) rfl <| .step (l := .waiter) trivial rfl <|
      .step (l := .waiter) trivial rfl <| .step (l := .waiter) trivial rfl <|
      .step (l := .mpInitialize) trivial rfl <| .now ⟨⟨rfl, rfl, rfl, rfl⟩, rfl, rfl⟩)

end Observe
