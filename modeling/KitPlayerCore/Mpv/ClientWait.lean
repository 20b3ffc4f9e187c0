-- SUMMARY: That no wakeup of a client is lost, and that `mpv_wait_event` returns what is pending.
import KitPlayerCore.Mpv.ClientStream

/-!
# The wait of a client

`wakeup_client` sets `need_wakeup` before it wakes the client up, and the client clears it before
it looks at the ring. So what was added while it was not looking is never overlooked.

A thread in `mpv_wait_async_requests` clears `need_wakeup` as well, and does not look at the ring.
So this holds only if no other thread is in there while the client waits.
-/

namespace ClientEvents

open Container Mpv Transition

variable {δ : Type} {size : Nat} {s s' : State δ size}

/-! ## Who waits -/

/-- Nobody is in `mpv_wait_event`, or nobody is in `mpv_wait_async_requests`. -/
def State.Alone (s : State δ size) : Prop :=
  s.waiter = .at .outside ∨ ∀ n, s.settlers n = .at .outside

/-- No two of these calls overlap. -/
def Unshared (s : State δ size) : Label δ → Prop
  | .wait => ∀ n, s.settlers n = .at .outside
  | .settle _ => s.waiter = .at .outside
  | _ => True

/-- Nobody goes on in one of the two calls, though sleepers may be woken. -/
structure Stays (s s' : State δ size) : Prop where
  waiter : ∀ r, s'.waiter = .at r ↔ s.waiter = .at r
  settlers : ∀ n r, s'.settlers n = .at r ↔ s.settlers n = .at r

theorem Stays.of_eq (hwaiter : s'.waiter = s.waiter) (hsettlers : s'.settlers = s.settlers) :
    Stays s s' :=
  ⟨fun _ => hwaiter ▸ .rfl, fun _ _ => hsettlers ▸ .rfl⟩

theorem Stays.trans {u : State δ size} (h : Stays s u) (h' : Stays u s') : Stays s s' :=
  ⟨fun r => (h'.waiter r).trans (h.waiter r), fun n r => (h'.settlers n r).trans (h.settlers n r)⟩

theorem Stays.alone (h : Stays s s') (hs : s.Alone) : s'.Alone :=
  hs.imp (h.waiter _).mpr fun hall n => (h.settlers n _).mpr (hall n)

theorem Stays.of_wake (hwaiter : s'.waiter = if s.needWakeup then s.waiter else s.waiter.wake)
    (hsettlers : s'.settlers = if s.needWakeup then s.settlers else fun n => (s.settlers n).wake) :
    Stays s s' := by
  refine ⟨fun r => ?_, fun n r => ?_⟩
  · rw [hwaiter]
    split
    · exact .rfl
    · exact Place.wake_eq_at
  · rw [hsettlers]
    split
    · exact .rfl
    · exact Place.wake_eq_at

theorem Stays.wakeupClient (s : State δ size) : Stays s s.wakeupClient := by
  rw [wakeupClient_eq]
  exact .of_wake rfl rfl

theorem Stays.appendEvent {e : Event δ} (hs : s.appendEvent e = some s') : Stays s s' := by
  by_cases hroom : s.events.count + s.reservedEvents < size
  · rw [appendEvent_of_room hroom] at hs
    rw [← Option.some.inj hs]
    exact .of_wake rfl rfl
  · rw [appendEvent_of_full hroom] at hs
    cases hs

theorem Stays.sendEvent (s : State δ size) (e : Event δ) : Stays s (s.sendEvent e) := by
  obtain ⟨-, heq⟩ | ⟨-, t, ht, hcases⟩ := sendEvent_cases s e
  · exact .of_eq (by rw [heq]) (by rw [heq])
  · have hstays : Stays s t := .of_eq (by rw [ht]) (by rw [ht])
    obtain ⟨-, heq⟩ | ⟨-, happend⟩ | ⟨-, -, heq⟩ := hcases
    · exact heq ▸ hstays
    · exact hstays.trans (.appendEvent happend)
    · exact hstays.trans (.of_eq (by rw [heq]) (by rw [heq]))

theorem Stays.sendReply (s : State δ size) (userdata : UInt64) (e : Event δ) :
    Stays s (s.sendReply userdata e) := by
  obtain ⟨t, ht, hcases⟩ := sendReply_cases s userdata e
  have hstays : Stays s t := .of_eq (by rw [ht]) (by rw [ht])
  obtain happend | ⟨-, heq⟩ := hcases
  · exact hstays.trans (.appendEvent happend)
  · exact hstays.trans (.of_eq (by rw [heq]) (by rw [heq]))

theorem Stays.log (s : State δ size) (terminalLevel : LogLevel) (m : LogMessage) :
    Stays s (s.log terminalLevel m) := by
  unfold State.log
  split
  · exact .of_eq rfl rfl
  · rename_i buffer _
    have hstays : Stays s { s with messages := some (buffer.write terminalLevel m).1 } :=
      .of_eq rfl rfl
    dsimp only
    split
    · exact hstays.trans (.wakeupClient _)
    · exact hstays

theorem Stays.requestLogMessages (s : State δ size) (level : Option (Option LogLevel))
    (silent : Bool) (garbage : LogMessage) :
    Stays s (s.requestLogMessages level silent garbage) := by
  unfold State.requestLogMessages
  split
  · have hstays : Stays s { s with messages := none } := .of_eq rfl rfl
    exact hstays.trans (.wakeupClient _)
  · rename_i level
    refine Stays.trans (u := { s with messages := some _, messagesLevel := level }) ?_
      (.wakeupClient _)
    exact .of_eq rfl rfl

theorem settlers_look (s : State δ size) (expired : Bool) :
    (s.look expired).settlers = s.settlers := by
  obtain ⟨-, -, heq⟩ | ⟨_, heq⟩ | ⟨-, -, ⟨_, _, -, heq⟩ | ⟨-, heq⟩⟩ := look_cases s expired <;>
    rw [heq] <;> rfl

theorem State.Alone.step {l : Label δ} (h : s.Alone) (hl : Unshared s l)
    (hs : ClientEvents.step s l = some s') : s'.Alone := by
  -- whoever goes on is in there
  have hwaiting (hne : s.waiter ≠ .at .outside) (hsame : s'.settlers = s.settlers) : s'.Alone :=
    .inr fun n => hsame ▸ h.resolve_left hne n
  have hsettling {n : Nat} (hne : s.settlers n ≠ .at .outside) (hsame : s'.waiter = s.waiter) :
      s'.Alone := .inl (hsame ▸ h.resolve_right fun hall => hne (hall n))
  cases l with
  | send e =>
    simp only [ClientEvents.step, Option.ite_none_left_eq_some, Option.some.injEq] at hs
    exact hs.2 ▸ (Stays.sendEvent s e).alone h
  | request userdata =>
    cases hs
    unfold State.reserveReply
    split <;> exact h
  | reply userdata e =>
    simp only [ClientEvents.step, Option.ite_none_right_eq_some, Option.some.injEq] at hs
    exact hs.2 ▸ (Stays.sendReply s userdata e).alone h
  | requestEvent event enable =>
    cases hs
    obtain heq | ⟨_, -, ⟨-, heq⟩ | heq⟩ := requestEvent_cases s event enable <;> rw [heq] <;> exact h
  | wakeup =>
    cases hs
    exact (Stays.wakeupClient { s with queuedWakeup := true }).alone h
  | log terminalLevel m =>
    cases hs
    exact (Stays.log s terminalLevel m).alone h
  | requestLogMessages level silent garbage =>
    cases hs
    exact (Stays.requestLogMessages s level silent garbage).alone h
  | wait =>
    simp only [ClientEvents.step, Option.ite_none_right_eq_some, Option.some.injEq] at hs
    rw [← hs.2]
    exact .inr fun n => by rw [settlers_look]; exact hl n
  | waiter =>
    simp only [ClientEvents.step] at hs
    split at hs <;> cases hs
    · rename_i hwaking
      refine hwaiting (by rw [hwaking]; rintro ⟨⟩) ?_
      unfold State.waitWakeup
      split <;> rfl
    · rename_i hlooking
      exact hwaiting (by rw [hlooking]; rintro ⟨⟩) (settlers_look s _)
    · rename_i hleaving
      exact hwaiting (by rw [hleaving]; rintro ⟨⟩) rfl
    · rename_i hwoken
      exact hwaiting (by rw [hwoken]; rintro ⟨⟩) rfl
  | timeout =>
    simp only [ClientEvents.step] at hs
    split at hs <;> cases hs
    all_goals
      rename_i hsleeping
      exact hwaiting (by rw [hsleeping]; rintro ⟨⟩) rfl
  | wakeWaiter =>
    simp only [ClientEvents.step] at hs
    split at hs <;> cases hs
    rename_i hasleep
    exact hwaiting (by rw [hasleep]; rintro ⟨⟩) rfl
  | settle n =>
    simp only [ClientEvents.step, Option.ite_none_right_eq_some, Option.some.injEq] at hs
    exact hs.2 ▸ .inl hl
  | settler n =>
    simp only [ClientEvents.step, State.settler] at hs
    split at hs <;> cases hs
    · rename_i hwaking
      refine hsettling (n := n) (by rw [hwaking]; rintro ⟨⟩) ?_
      split <;> rfl
    · rename_i hlooking
      exact hsettling (n := n) (by rw [hlooking]; rintro ⟨⟩) rfl
    · rename_i hwoken
      exact hsettling (n := n) (by rw [hwoken]; rintro ⟨⟩) rfl
  | settlerTimeout n =>
    simp only [ClientEvents.step] at hs
    split at hs <;> cases hs
    all_goals
      rename_i hsleeping
      exact hsettling (n := n) (by rw [hsleeping]; rintro ⟨⟩) rfl
  | wakeSettler n =>
    simp only [ClientEvents.step] at hs
    split at hs <;> cases hs
    rename_i hasleep
    exact hsettling (n := n) (by rw [hasleep]; rintro ⟨⟩) rfl

theorem alone_of_under (h : (client δ size).Under Unshared s) : s.Alone := by
  refine h.invariant ?_ fun _ _ _ h hl hs => h.step hl hs
  rintro _ ⟨garbage, hsize, rfl⟩
  exact .inl rfl

/-! ## Wakeups -/

/-- The client has nothing to wake up for. -/
structure State.Waits (s : State δ size) (expired : Bool) : Prop where
  events : s.events.count = 0
  messages : s.logEntry = none
  /-- `mpv_wakeup` was not called, or its call was heeded. -/
  wakeup : s.queuedWakeup = true → expired = true
  /-- `send_event` does not wake the client up when the queue chokes. An overflow may be due while
      all entries of the ring are reserved. -/
  choked : s.choked = true → s.reservedEvents = size

/-- No wakeup is lost. -/
structure Heeded (s : State δ size) : Prop where
  asleep : ∀ expired, s.waiter = .asleep expired → s.needWakeup = false
  /-- Whoever sleeps, or is about to, has no reason to go on. -/
  waits : s.needWakeup = false → ∀ expired,
    s.waiter = .asleep expired ∨ s.waiter = .at (.waking expired) → s.Waits expired

/-- The client does not sleep. -/
theorem Heeded.of_awake {r : WaitSpot} (hr : s.waiter = .at r) (hne : ∀ expired, r ≠ .waking expired) :
    Heeded s := by
  refine ⟨fun expired hasleep => ?_, fun _ expired hwaits => ?_⟩
  · rw [hr] at hasleep
    cases hasleep
  · obtain hwaits | hwaits := hwaits
    · rw [hr] at hwaits
      cases hwaits
    · rw [hr] at hwaits
      exact absurd (Place.at.inj hwaits) (hne expired)

/-- After `wakeup_client` nobody sleeps. -/
theorem Heeded.of_needWakeup (hneed : s'.needWakeup = true)
    (hwaiter : s'.waiter = if s.needWakeup then s.waiter else s.waiter.wake)
    (h : ∀ expired, s.waiter = .asleep expired → s.needWakeup = false) : Heeded s' := by
  refine ⟨fun expired hasleep => ?_, fun hno => ?_⟩
  · rw [hwaiter] at hasleep
    split at hasleep
    · rename_i hneeded
      rw [h expired hasleep] at hneeded
      cases hneeded
    · exact absurd hasleep (s.waiter.wake_ne_asleep expired)
  · rw [hneed] at hno
    cases hno

theorem Heeded.wakeupClient (h : ∀ expired, s.waiter = .asleep expired → s.needWakeup = false) :
    Heeded s.wakeupClient := by
  rw [wakeupClient_eq]
  exact .of_needWakeup (s := s) rfl rfl h

theorem Heeded.appendEvent {e : Event δ}
    (h : ∀ expired, s.waiter = .asleep expired → s.needWakeup = false)
    (hs : s.appendEvent e = some s') : Heeded s' := by
  by_cases hroom : s.events.count + s.reservedEvents < size
  · rw [appendEvent_of_room hroom] at hs
    rw [← Option.some.inj hs]
    exact .of_needWakeup (s := s) rfl rfl h
  · rw [appendEvent_of_full hroom] at hs
    cases hs

/-- A step that leaves the wait alone. -/
theorem Heeded.frame (h : Heeded s) (hneed : s'.needWakeup = s.needWakeup)
    (hwaiter : s'.waiter = s.waiter) (hwaits : ∀ expired, s.Waits expired → s'.Waits expired) :
    Heeded s' := by
  refine ⟨fun expired hasleep => ?_, fun hno expired hplace => ?_⟩
  · rw [hwaiter] at hasleep
    rw [hneed]
    exact h.asleep expired hasleep
  · rw [hneed] at hno
    rw [hwaiter] at hplace
    exact hwaits expired (h.waits hno expired hplace)

/-- A message that is not worth a wakeup cannot be read. -/
theorem read_write_eq_none {buffer : LogBuffer} {terminalLevel : LogLevel} {m : LogMessage}
    (hread : buffer.read = none) (hwrite : (buffer.write terminalLevel m).2 = false) :
    (buffer.write terminalLevel m).1.read = none := by
  by_cases haccepts : buffer.accepts terminalLevel m.level = true
  · by_cases hroom : buffer.entries.count < buffer.capacity
    · rw [LogBuffer.write_of_room haccepts hroom] at hwrite ⊢
      simp only [Bool.not_eq_false'] at hwrite
      simp [LogBuffer.read, hwrite]
    · rw [LogBuffer.write_of_full haccepts hroom] at hwrite ⊢
      simp only [Bool.not_eq_false'] at hwrite
      simp [LogBuffer.read, hwrite]
  · have hsame : buffer.write terminalLevel m = (buffer, false) := if_neg haccepts
    rw [hsame]
    exact hread

theorem Heeded.log (h : Heeded s) (terminalLevel : LogLevel) (m : LogMessage) :
    Heeded (s.log terminalLevel m) := by
  unfold State.log
  split
  · exact h
  · rename_i buffer hbuffer
    dsimp only
    split
    · exact .wakeupClient h.asleep
    · rename_i hquiet
      refine h.frame rfl rfl fun expired hwaits => ⟨hwaits.events, ?_, hwaits.wakeup, hwaits.choked⟩
      have hread : buffer.read = none := by simpa [State.logEntry, hbuffer] using hwaits.messages
      simpa [State.logEntry] using read_write_eq_none hread (Bool.eq_false_of_not_eq_true hquiet)

theorem Heeded.look (s : State δ size) (expired : Bool) : Heeded (s.look expired) := by
  obtain ⟨-, -, heq⟩ | ⟨hpos, heq⟩ | ⟨hchoked, hcount, ⟨entry, buffer, -, heq⟩ | ⟨hlog, heq⟩⟩ :=
    look_cases s expired
  · rw [heq]
    exact .of_awake rfl nofun
  · rw [heq]
    exact .of_awake rfl nofun
  · rw [heq]
    exact .of_awake rfl nofun
  · rw [heq]
    refine ⟨nofun, fun _ expired' hplace => ?_⟩
    obtain hplace | hplace := hplace
    · cases hplace
    · cases hplace
      refine ⟨hcount, hlog, fun hqueued => ?_, fun habs => ?_⟩
      · have hqueued : s.queuedWakeup = true := hqueued
        rw [hqueued, Bool.or_true]
      · rw [hchoked] at habs
        cases habs

theorem Heeded.sendEvent (h : Heeded s) (hreplies : Replies s) (e : Event δ) :
    Heeded (s.sendEvent e) := by
  obtain ⟨-, heq⟩ | ⟨-, t, ht, hcases⟩ := sendEvent_cases s e
  · rw [heq]
    exact h
  · have hheeded : Heeded t := by
      rw [ht]
      exact h.frame rfl rfl fun expired hwaits =>
        ⟨hwaits.events, hwaits.messages, hwaits.wakeup, hwaits.choked⟩
    obtain ⟨-, heq⟩ | ⟨-, happend⟩ | ⟨-, hfull, heq⟩ := hcases
    · rw [heq]
      exact hheeded
    · exact .appendEvent hheeded.asleep happend
    · rw [heq, ht]
      refine h.frame rfl rfl fun expired hwaits =>
        ⟨hwaits.events, hwaits.messages, hwaits.wakeup, fun _ => ?_⟩
      have hroom := hreplies.room
      have hzero := hwaits.events
      dsimp only
      omega

theorem Heeded.step {l : Label δ} (h : Heeded s) (hreplies : Replies s) (halone : s.Alone)
    (hl : Unshared s l) (hs : ClientEvents.step s l = some s') : Heeded s' := by
  -- while some other thread waits for replies, the client is not in there
  have hsettling {n : Nat} (hne : s.settlers n ≠ .at .outside) (hsame : s'.waiter = s.waiter) :
      Heeded s' :=
    .of_awake (r := .outside) (hsame ▸ halone.resolve_right fun hall => hne (hall n)) (by rintro _ ⟨⟩)
  cases l with
  | send e =>
    simp only [ClientEvents.step, Option.ite_none_left_eq_some, Option.some.injEq] at hs
    exact hs.2 ▸ h.sendEvent hreplies e
  | request userdata =>
    cases hs
    unfold State.reserveReply
    split
    · rename_i hcond
      refine h.frame rfl rfl fun expired hwaits =>
        ⟨hwaits.events, hwaits.messages, hwaits.wakeup, fun hchoked => ?_⟩
      rw [hcond.2] at hchoked
      cases hchoked
    · exact h
  | reply userdata e =>
    simp only [ClientEvents.step, Option.ite_none_right_eq_some, Option.some.injEq] at hs
    obtain ⟨⟨hmem, -⟩, rfl⟩ := hs
    have hpos : 0 < s.reservedEvents := hreplies.reserved ▸ List.length_pos_of_mem hmem
    obtain ⟨t, ht, happend | ⟨hfull, -⟩⟩ := sendReply_cases s userdata e
    · refine .appendEvent ?_ happend
      rw [ht]
      exact h.asleep
    · rw [ht] at hfull
      have hroom := hreplies.room
      exact absurd (by dsimp only; omega) hfull
  | requestEvent event enable =>
    cases hs
    obtain heq | ⟨eventId, -, ⟨-, heq⟩ | heq⟩ := requestEvent_cases s event enable
    · rw [heq]
      exact h
    · rw [heq]
      exact h.frame rfl rfl fun expired hwaits =>
        ⟨hwaits.events, hwaits.messages, hwaits.wakeup, hwaits.choked⟩
    · rw [heq]
      exact h.frame rfl rfl fun expired hwaits =>
        ⟨hwaits.events, hwaits.messages, hwaits.wakeup, hwaits.choked⟩
  | wakeup =>
    cases hs
    exact .wakeupClient h.asleep
  | log terminalLevel m =>
    cases hs
    exact h.log terminalLevel m
  | requestLogMessages level silent garbage =>
    cases hs
    unfold State.requestLogMessages
    split
    · exact .wakeupClient h.asleep
    · exact .wakeupClient h.asleep
  | wait =>
    simp only [ClientEvents.step, Option.ite_none_right_eq_some, Option.some.injEq] at hs
    exact hs.2 ▸ .look s false
  | waiter =>
    simp only [ClientEvents.step] at hs
    split at hs <;> cases hs
    · rename_i expired hwaking
      unfold State.waitWakeup
      split
      · exact .of_awake rfl (by rintro _ ⟨⟩)
      · rename_i hneed
        have hneed : s.needWakeup = false := Bool.eq_false_of_not_eq_true hneed
        obtain ⟨hevents, hmessages, hwakeup, hchoked⟩ := h.waits hneed expired (.inr hwaking)
        refine ⟨fun _ _ => hneed, fun _ expired' hplace => ?_⟩
        obtain hplace | hplace := hplace <;> cases hplace
        exact ⟨hevents, hmessages, hwakeup, hchoked⟩
    · exact .look s _
    · exact .of_awake rfl (by rintro _ ⟨⟩)
    · exact .of_awake rfl (by rintro _ ⟨⟩)
  | timeout =>
    simp only [ClientEvents.step] at hs
    split at hs <;> cases hs <;> exact .of_awake rfl (by rintro _ ⟨⟩)
  | wakeWaiter =>
    simp only [ClientEvents.step] at hs
    split at hs <;> cases hs
    rename_i expired hasleep
    rw [hasleep]
    refine ⟨by rintro _ ⟨⟩, fun _ expired' hplace => ?_⟩
    obtain hplace | hplace := hplace <;> cases hplace
  | settle n =>
    simp only [ClientEvents.step, Option.ite_none_right_eq_some, Option.some.injEq] at hs
    have houtside : s.waiter = .at .outside := hl
    exact .of_awake (r := .outside) (hs.2 ▸ houtside) (by rintro _ ⟨⟩)
  | settler n =>
    simp only [ClientEvents.step, State.settler] at hs
    split at hs <;> cases hs
    · rename_i hwaking
      refine hsettling (n := n) (by rw [hwaking]; rintro ⟨⟩) ?_
      split <;> rfl
    · rename_i hlooking
      exact hsettling (n := n) (by rw [hlooking]; rintro ⟨⟩) rfl
    · rename_i hwoken
      exact hsettling (n := n) (by rw [hwoken]; rintro ⟨⟩) rfl
  | settlerTimeout n =>
    simp only [ClientEvents.step] at hs
    split at hs <;> cases hs
    all_goals
      rename_i hsleeping
      exact hsettling (n := n) (by rw [hsleeping]; rintro ⟨⟩) rfl
  | wakeSettler n =>
    simp only [ClientEvents.step] at hs
    split at hs <;> cases hs
    rename_i hasleep
    exact hsettling (n := n) (by rw [hasleep]; rintro ⟨⟩) rfl

theorem heeded_of_under (h : (client δ size).Under Unshared s) : Heeded s := by
  refine h.invariant_of (fun _ hs => And.intro (alone_of_under hs) (replies_of_reachable hs.reachable))
    ?_ fun _ _ _ hknown h hl hs => h.step hknown.2 hknown.1 hl hs
  rintro _ ⟨garbage, hsize, rfl⟩
  exact .of_awake rfl nofun

/-! ## Waiting -/

/-- In every state reached so, a client that sleeps in `mpv_wait_event` has nothing to wake up
    for. -/
theorem idle_of_asleep (h : (client δ size).Under Unshared s) {expired : Bool}
    (hasleep : s.waiter = .asleep expired) : s.Waits expired := by
  have hheeded := heeded_of_under h
  exact hheeded.waits (hheeded.asleep expired hasleep) expired (.inl hasleep)

/-- The client sleeps, though the queue has choked while all its entries are reserved. -/
theorem idle_while_choked : ∃ s : State Nat 2, s.waiter = .asleep false ∧ s.Waits false ∧
    s.choked = true := by
  have hinit : (client Nat 2).Under Unshared (.new (fun _ => { eventId := 0 }) (by decide)) :=
    .init ⟨_, _, rfl⟩
  obtain ⟨s, hs, hasleep, hchoked⟩ := hinit.may
    (P := fun s => s.waiter = .asleep false ∧ s.choked = true)
    (.step (l := .request 5) trivial rfl <| .step (l := .request 6) trivial rfl <|
      .step (l := .wait) (fun _ => rfl) rfl <| .step (l := .waiter) trivial rfl <|
      .step (l := .send { eventId := 8 }) trivial rfl <| .now ⟨rfl, rfl⟩)
  exact ⟨s, hasleep, idle_of_asleep hs hasleep, hchoked⟩

/-- Without the guard the client may sleep over an event, where a thread that waits for replies has
    taken the wakeup for it. -/
theorem event_while_asleep : ∃ s : State Nat 2, (client Nat 2).Reachable s ∧
    s.waiter = .asleep false ∧ s.events.count = 1 := by
  obtain ⟨s, hs, htest⟩ := Machine.Reachable.exec_any
    (.init ⟨fun _ => { eventId := 0 }, by decide, rfl⟩ : (client Nat 2).Reachable
      (.new (fun _ => { eventId := 0 }) (by decide)))
    [.request 5, .settle 0, .wait, .send { eventId := 8 }, .settler 0, .waiter]
    (p := fun s => decide (s.waiter = .asleep false ∧ s.events.count = 1))
    (by decide +kernel)
  exact ⟨s, hs, of_decide_eq_true htest⟩

/-- `mpv_wait_event` has something to return that the client was woken up for. -/
def State.Pending (s : State δ size) : Prop :=
  0 < s.events.count ∨ s.logEntry ≠ none ∨ s.choked = true ∧ s.reservedEvents < size

/-- The client comes out of `mpv_wait_event` with something by its own steps. -/
def State.Returns (s : State δ size) : Prop :=
  ∃ t r, (client δ size).Leads (· = .waiter) s t ∧ t.waiter = .at .outside ∧
    t.received = s.received ++ [r]

theorem State.Pending.not_waits {expired : Bool} (h : s.Pending) : ¬ s.Waits expired := by
  intro hwaits
  obtain hpos | hlog | ⟨hchoked, hlt⟩ := h
  · exact hpos.ne' hwaits.events
  · exact hlog hwaits.messages
  · exact hlt.ne (hwaits.choked hchoked)

/-- What is pending is returned as soon as the client has the lock. -/
theorem look_of_pending (h : s.Pending) (expired : Bool) :
    ∃ r, (s.look expired).waiter = .at .outside ∧ (s.look expired).received = s.received ++ [r] := by
  obtain ⟨-, -, heq⟩ | ⟨hpos, heq⟩ | ⟨hchoked, hcount, ⟨entry, buffer, -, heq⟩ | ⟨hlog, -⟩⟩ :=
    look_cases s expired
  · exact ⟨_, by rw [heq]; rfl, by rw [heq]; rfl⟩
  · exact ⟨_, by rw [heq]; rfl, by rw [heq]; rfl⟩
  · exact ⟨_, by rw [heq]; rfl, by rw [heq]; rfl⟩
  · obtain hpos | hne | ⟨habs, -⟩ := h
    · exact absurd hcount hpos.ne'
    · exact absurd hlog hne
    · rw [hchoked] at habs
      cases habs

theorem returns_of_looking {expired : Bool} (hlooking : s.waiter = .at (.looking expired))
    (hpending : s.Pending) : s.Returns := by
  obtain ⟨r, hout, hgot⟩ := look_of_pending hpending expired
  have hstep : ClientEvents.step s .waiter = some (s.look expired) := by
    simp only [ClientEvents.step, hlooking]
  exact ⟨_, r, .single (l := .waiter) rfl hstep, hout, hgot⟩

theorem State.Returns.head (h : s'.Returns) (hs : ClientEvents.step s .waiter = some s')
    (hreceived : s'.received = s.received) : s.Returns := by
  obtain ⟨t, r, hlead, hout, hgot⟩ := h
  exact ⟨t, r, .head (l := .waiter) rfl hs hlead, hout, hreceived ▸ hgot⟩

/-- The client is woken up for what is pending. -/
theorem State.Pending.returns (h : s.Pending) (hheeded : Heeded s) (hin : s.waiter ≠ .at .outside)
    (hleaving : s.waiter ≠ .at .leaving) : s.Returns := by
  -- from here on it has only to take the lock
  have hlooking (expired : Bool) :
      State.Returns { s with needWakeup := false, waiter := .at (.looking expired) } :=
    returns_of_looking rfl h
  cases hp : s.waiter with
  | «at» r =>
    cases r with
    | outside => exact absurd hp hin
    | leaving => exact absurd hp hleaving
    | looking expired => exact returns_of_looking hp h
    | waking expired =>
      have hneed : s.needWakeup = true := by
        by_contra hno
        exact h.not_waits (hheeded.waits (Bool.eq_false_of_not_eq_true hno) expired (.inr hp))
      have hstep : ClientEvents.step s .waiter = some (s.waitWakeup expired) := by
        simp only [ClientEvents.step, hp]
      have hwake : s.waitWakeup expired =
          { s with needWakeup := false, waiter := .at (.looking expired) } := if_pos hneed
      rw [hwake] at hstep
      exact (hlooking expired).head hstep rfl
  | asleep expired =>
    exact absurd (hheeded.waits (hheeded.asleep expired hp) expired (.inl hp)) h.not_waits
  | woken expired =>
    have hstep : ClientEvents.step s .waiter =
        some { s with needWakeup := false, waiter := .at (.looking expired) } := by
      simp only [ClientEvents.step, hp]
    exact (hlooking expired).head hstep rfl

/-- A reply is pending once it was sent. -/
theorem pending_of_reply {userdata : UInt64} {e : Event δ} (hreplies : Replies s)
    (hs : ClientEvents.step s (.reply userdata e) = some s') : s'.Pending := by
  simp only [ClientEvents.step, Option.ite_none_right_eq_some, Option.some.injEq] at hs
  obtain ⟨⟨hmem, -⟩, rfl⟩ := hs
  have hpos : 0 < s.reservedEvents := hreplies.reserved ▸ List.length_pos_of_mem hmem
  have hroom := hreplies.room
  obtain ⟨t, ht, happend | ⟨hfull, -⟩⟩ := sendReply_cases s userdata e
  · have hfree : t.events.count + t.reservedEvents < size := by
      rw [ht]
      dsimp only
      omega
    rw [appendEvent_of_room hfree] at happend
    rw [← Option.some.inj happend]
    exact .inl (by simp [RingBuffer.count_push])
  · rw [ht] at hfull
    exact absurd (by dsimp only; omega) hfull

/-- While something is pending, the client comes out of `mpv_wait_event` with it by itself, unless
    the time was over before. Once a reply was sent it does so in any case, so the overflow of a
    queue whose entries are all reserved waits no longer than that. -/
theorem returns_of_pending (h : (client δ size).Under Unshared s) (hin : s.waiter ≠ .at .outside)
    (hleaving : s.waiter ≠ .at .leaving) :
    (s.Pending → s.Returns) ∧
      ∀ userdata e s', ClientEvents.step s (.reply userdata e) = some s' → s'.Returns := by
  refine ⟨fun hpending => hpending.returns (heeded_of_under h) hin hleaving, ?_⟩
  intro userdata e s' hs
  have hstays : Stays s s' := by
    simp only [ClientEvents.step, Option.ite_none_right_eq_some, Option.some.injEq] at hs
    exact hs.2 ▸ .sendReply s userdata e
  have hunder : (client δ size).Under Unshared s' := h.step (l := .reply userdata e) trivial hs
  exact (pending_of_reply (replies_of_reachable h.reachable) hs).returns (heeded_of_under hunder)
    (fun hout => hin ((hstays.waiter _).mp hout)) fun hleave => hleaving ((hstays.waiter _).mp hleave)

/-- The queue has choked while the client sleeps, and the reply to one of the requests wakes the
    client up. -/
theorem returns_after_reply : ∃ s s' : State Nat 2, s.waiter = .asleep false ∧ s.choked = true ∧
    ClientEvents.step s (.reply 5 { eventId := 5 }) = some s' ∧ s'.Returns := by
  have hinit : (client Nat 2).Under Unshared (.new (fun _ => { eventId := 0 }) (by decide)) :=
    .init ⟨_, _, rfl⟩
  obtain ⟨s, hs, ⟨hasleep, hchoked⟩, houtstanding⟩ := hinit.may
    (P := fun s => (s.waiter = .asleep false ∧ s.choked = true) ∧ s.outstanding = [5, 6])
    (.step (l := .request 5) trivial rfl <| .step (l := .request 6) trivial rfl <|
      .step (l := .wait) (fun _ => rfl) rfl <| .step (l := .waiter) trivial rfl <|
      .step (l := .send { eventId := 8 }) trivial rfl <| .now ⟨⟨rfl, rfl⟩, rfl⟩)
  have hstep : ClientEvents.step s (.reply 5 { eventId := 5 }) =
      some (s.sendReply 5 { eventId := 5 }) := if_pos ⟨by simp [houtstanding], rfl⟩
  have hreturns := returns_of_pending hs (by rw [hasleep]; nofun) (by rw [hasleep]; nofun)
  exact ⟨s, _, hasleep, hchoked, hstep, hreturns.2 5 _ _ hstep⟩

end ClientEvents
