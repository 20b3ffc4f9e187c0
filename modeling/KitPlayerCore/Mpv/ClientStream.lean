-- SUMMARY: What a client gets of its events: each once and in order, every gap reported, every reply delivered.
import KitPlayerCore.Mpv.ClientEvents

/-!
# What a client gets

The ring is a queue, so the client gets the accepted events in their order. An event is
dropped only when the queue chokes, and then the client is told so before it gets any event
that is sent later. A reserved entry is never taken by an event, so a reply is never dropped.
But a reply that is written while the queue is choked comes before the overflow.
-/

namespace ClientEvents

open Container Mpv Transition

variable {δ : Type} {size : Nat} {s s' : State δ size}

/-! ## What the operations do -/

theorem wakeupClient_eq (s : State δ size) :
    s.wakeupClient = { s with
      needWakeup := true
      waiter := if s.needWakeup then s.waiter else s.waiter.wake
      settlers := if s.needWakeup then s.settlers else fun n => (s.settlers n).wake
      callbacks := if s.needWakeup then s.callbacks else s.callbacks + 1 } := by
  unfold State.wakeupClient
  split
  · rename_i hneed
    obtain ⟨_, _, _, _, _, _, _, needWakeup⟩ := s
    cases hneed
    rfl
  · simp

/-- An event is written where there is room for it beside the reserved entries. -/
theorem appendEvent_of_room {e : Event δ} (h : s.events.count + s.reservedEvents < size) :
    s.appendEvent e = some { s with
      events := s.events.push e ((Nat.le_add_right _ _).trans_lt h)
      accepted := s.accepted ++ [⟨e, s.gaps, s.choked⟩]
      eventMask := if e.eventId = shutdown then s.eventMask &&& (s.eventMask &&& ~~~ bit shutdown)
        else s.eventMask
      needWakeup := true
      waiter := if s.needWakeup then s.waiter else s.waiter.wake
      settlers := if s.needWakeup then s.settlers else fun n => (s.settlers n).wake
      callbacks := if s.needWakeup then s.callbacks else s.callbacks + 1 } := by
  rw [State.appendEvent, dif_pos h, wakeupClient_eq]
  by_cases he : e.eventId = shutdown <;> simp only [he, if_true, if_false]

theorem appendEvent_of_full {e : Event δ} (h : ¬ s.events.count + s.reservedEvents < size) :
    s.appendEvent e = none := dif_neg h

/-- `send_event` finds that the client does not want the event, or writes it, or drops it. -/
theorem sendEvent_cases (s : State δ size) (e : Event δ) :
    s.eventMask &&& bit e.eventId = 0 ∧ s.sendEvent e = s ∨
      s.eventMask &&& bit e.eventId ≠ 0 ∧ ∃ t, t = { s with passed := s.passed ++ [e] } ∧
        (s.choked = true ∧ s.sendEvent e = t ∨
          s.choked = false ∧ t.appendEvent e = some (s.sendEvent e) ∨
          s.choked = false ∧ ¬ s.events.count + s.reservedEvents < size ∧
            s.sendEvent e = { t with choked := true, gaps := s.gaps + 1 }) := by
  unfold State.sendEvent
  split
  · rename_i hmask
    exact .inl ⟨hmask, rfl⟩
  · rename_i hmask
    refine .inr ⟨hmask, _, rfl, ?_⟩
    dsimp only
    split
    · rename_i hchoked
      exact .inl ⟨hchoked, rfl⟩
    · rename_i hchoked
      have hchoked : s.choked = false := Bool.eq_false_of_not_eq_true hchoked
      by_cases hroom : s.events.count + s.reservedEvents < size
      · refine .inr (.inl ⟨hchoked, ?_⟩)
        rw [appendEvent_of_room (by exact hroom), Option.getD_some]
      · refine .inr (.inr ⟨hchoked, hroom, ?_⟩)
        rw [appendEvent_of_full (by exact hroom), Option.getD_none]

/-- What `mpv_wait_event` does when it has `ctx->lock`. -/
theorem look_cases (s : State δ size) (expired : Bool) :
    (s.choked = true ∧ s.events.count = 0 ∧
        s.look expired = { s with choked := false }.ret [.overflow]) ∨
      (∃ h : 0 < s.events.count, s.look expired =
        { s with events := (s.events.pop h).2 }.ret [.event (s.events.pop h).1]) ∨
      s.choked = false ∧ s.events.count = 0 ∧
        ((∃ entry buffer, s.logEntry = some (entry, buffer) ∧
            s.look expired = { s with messages := some buffer }.ret [.log entry]) ∨
          s.logEntry = none ∧
            s.look expired = { s with waiter := .at (.waking (expired || s.queuedWakeup)) }) := by
  unfold State.look
  split
  · rename_i hcond
    exact .inl ⟨hcond.1, hcond.2, rfl⟩
  · rename_i hcond
    split
    · rename_i hpos
      exact .inr (.inl ⟨hpos, rfl⟩)
    · rename_i hzero
      have hcount : s.events.count = 0 := by omega
      have hchoked : s.choked = false :=
        Bool.eq_false_of_not_eq_true fun hchoked => hcond ⟨hchoked, hcount⟩
      refine .inr (.inr ⟨hchoked, hcount, ?_⟩)
      split
      · rename_i entry buffer hlog
        exact .inl ⟨entry, buffer, hlog, rfl⟩
      · rename_i hlog
        exact .inr ⟨hlog, rfl⟩

/-- A step that concerns only the wait of the client, or its log messages. -/
structure Same (s s' : State δ size) : Prop where
  events : s'.events = s.events
  reservedEvents : s'.reservedEvents = s.reservedEvents
  eventMask : s'.eventMask = s.eventMask
  choked : s'.choked = s.choked
  outstanding : s'.outstanding = s.outstanding
  requested : s'.requested = s.requested
  passed : s'.passed = s.passed
  accepted : s'.accepted = s.accepted
  gaps : s'.gaps = s.gaps
  shutdownRequests : s'.shutdownRequests = s.shutdownRequests
  received : s'.received = s.received
  failed : s'.failed = s.failed

theorem Same.wakeupClient (h : Same s s') : Same s s'.wakeupClient := by
  rw [wakeupClient_eq]
  exact ⟨h.events, h.reservedEvents, h.eventMask, h.choked, h.outstanding, h.requested,
    h.passed, h.accepted, h.gaps, h.shutdownRequests, h.received, h.failed⟩

theorem Same.log (s : State δ size) (terminalLevel : LogLevel) (m : LogMessage) :
    Same s (s.log terminalLevel m) := by
  unfold State.log
  split
  · exact ⟨rfl, rfl, rfl, rfl, rfl, rfl, rfl, rfl, rfl, rfl, rfl, rfl⟩
  · rename_i buffer hbuffer
    have hsame : Same s { s with messages := some (buffer.write terminalLevel m).1 } :=
      ⟨rfl, rfl, rfl, rfl, rfl, rfl, rfl, rfl, rfl, rfl, rfl, rfl⟩
    dsimp only
    split
    · exact hsame.wakeupClient
    · exact hsame

theorem Same.requestLogMessages (s : State δ size) (level : Option (Option LogLevel))
    (silent : Bool) (garbage : LogMessage) : Same s (s.requestLogMessages level silent garbage) := by
  unfold State.requestLogMessages
  split
  · exact Same.wakeupClient ⟨rfl, rfl, rfl, rfl, rfl, rfl, rfl, rfl, rfl, rfl, rfl, rfl⟩
  · exact Same.wakeupClient ⟨rfl, rfl, rfl, rfl, rfl, rfl, rfl, rfl, rfl, rfl, rfl, rfl⟩

theorem Same.settler {n : Nat} (hs : s.settler n = some s') : Same s s' := by
  unfold State.settler at hs
  split at hs <;> cases hs
  · split <;> exact ⟨rfl, rfl, rfl, rfl, rfl, rfl, rfl, rfl, rfl, rfl, rfl, rfl⟩
  · exact ⟨rfl, rfl, rfl, rfl, rfl, rfl, rfl, rfl, rfl, rfl, rfl, rfl⟩
  · exact ⟨rfl, rfl, rfl, rfl, rfl, rfl, rfl, rfl, rfl, rfl, rfl, rfl⟩

/-- What a step can do to the events. -/
theorem step_cases {l : Label δ} (hs : ClientEvents.step s l = some s') :
    Same s s' ∨ (∃ e : Event δ, l = .send e ∧ isReply e.eventId = false ∧ s' = s.sendEvent e) ∨
      (∃ userdata, l = .request userdata ∧ s' = s.reserveReply userdata) ∨
      (∃ userdata, ∃ e : Event δ, l = .reply userdata e ∧ userdata ∈ s.outstanding ∧
        isReply e.eventId = true ∧ s' = s.sendReply userdata e) ∨
      (∃ event enable, s' = s.requestEvent event enable) ∨ ∃ expired, s' = s.look expired := by
  have hsame : Same s s := ⟨rfl, rfl, rfl, rfl, rfl, rfl, rfl, rfl, rfl, rfl, rfl, rfl⟩
  cases l with
  | send e =>
    simp only [ClientEvents.step, Option.ite_none_left_eq_some, Option.some.injEq] at hs
    exact .inr (.inl ⟨e, rfl, Bool.eq_false_of_not_eq_true hs.1, hs.2.symm⟩)
  | request userdata => exact .inr (.inr (.inl ⟨userdata, rfl, (Option.some.inj hs).symm⟩))
  | reply userdata e =>
    simp only [ClientEvents.step, Option.ite_none_right_eq_some, Option.some.injEq] at hs
    exact .inr (.inr (.inr (.inl ⟨userdata, e, rfl, hs.1.1, hs.1.2, hs.2.symm⟩)))
  | requestEvent event enable =>
    exact .inr (.inr (.inr (.inr (.inl ⟨event, enable, (Option.some.inj hs).symm⟩))))
  | wakeup =>
    cases hs
    exact .inl (Same.wakeupClient ⟨rfl, rfl, rfl, rfl, rfl, rfl, rfl, rfl, rfl, rfl, rfl, rfl⟩)
  | log terminalLevel m =>
    cases hs
    exact .inl (.log s terminalLevel m)
  | requestLogMessages level silent garbage =>
    cases hs
    exact .inl (.requestLogMessages s level silent garbage)
  | wait =>
    simp only [ClientEvents.step, Option.ite_none_right_eq_some, Option.some.injEq] at hs
    exact .inr (.inr (.inr (.inr (.inr ⟨false, hs.2.symm⟩))))
  | waiter =>
    simp only [ClientEvents.step] at hs
    split at hs <;> cases hs
    · refine .inl ?_
      unfold State.waitWakeup
      split <;> exact ⟨rfl, rfl, rfl, rfl, rfl, rfl, rfl, rfl, rfl, rfl, rfl, rfl⟩
    · exact .inr (.inr (.inr (.inr (.inr ⟨_, rfl⟩))))
    · exact .inl ⟨rfl, rfl, rfl, rfl, rfl, rfl, rfl, rfl, rfl, rfl, List.append_nil _, rfl⟩
    · exact .inl ⟨rfl, rfl, rfl, rfl, rfl, rfl, rfl, rfl, rfl, rfl, rfl, rfl⟩
  | timeout =>
    simp only [ClientEvents.step] at hs
    split at hs <;> cases hs <;>
      exact .inl ⟨rfl, rfl, rfl, rfl, rfl, rfl, rfl, rfl, rfl, rfl, rfl, rfl⟩
  | wakeWaiter =>
    simp only [ClientEvents.step] at hs
    split at hs <;> cases hs
    exact .inl ⟨rfl, rfl, rfl, rfl, rfl, rfl, rfl, rfl, rfl, rfl, rfl, rfl⟩
  | settle n =>
    simp only [ClientEvents.step, Option.ite_none_right_eq_some, Option.some.injEq] at hs
    exact .inl (hs.2 ▸ ⟨rfl, rfl, rfl, rfl, rfl, rfl, rfl, rfl, rfl, rfl, rfl, rfl⟩)
  | settler n => exact .inl (.settler hs)
  | settlerTimeout n =>
    simp only [ClientEvents.step] at hs
    split at hs <;> cases hs <;>
      exact .inl ⟨rfl, rfl, rfl, rfl, rfl, rfl, rfl, rfl, rfl, rfl, rfl, rfl⟩
  | wakeSettler n =>
    simp only [ClientEvents.step] at hs
    split at hs <;> cases hs
    exact .inl ⟨rfl, rfl, rfl, rfl, rfl, rfl, rfl, rfl, rfl, rfl, rfl, rfl⟩

/-- A reply is written, unless the reserved entry is missing. -/
theorem sendReply_cases (s : State δ size) (userdata : UInt64) (e : Event δ) :
    ∃ t, t = { s with
        reservedEvents := s.reservedEvents - 1
        outstanding := s.outstanding.erase userdata
        failed := s.failed || !(0 < s.reservedEvents : Bool) } ∧
      (t.appendEvent { e with replyUserdata := userdata } = some (s.sendReply userdata e) ∨
        ¬ t.events.count + t.reservedEvents < size ∧
          s.sendReply userdata e = { t with failed := true }) := by
  refine ⟨_, rfl, ?_⟩
  by_cases hroom : s.events.count + (s.reservedEvents - 1) < size
  · refine .inl ?_
    rw [State.sendReply, appendEvent_of_room (by exact hroom), Option.getD_some]
  · refine .inr ⟨hroom, ?_⟩
    rw [State.sendReply, appendEvent_of_full (by exact hroom), Option.getD_none]

/-- `mpv_request_event` sets or clears the bit of a named event. -/
theorem requestEvent_cases (s : State δ size) (event : Nat) (enable : Int) :
    s.requestEvent event enable = s ∨
      ∃ eventId : Fin 64, eventId.val < internalEventBase ∧
        ((eventId ≠ shutdown ∧ s.requestEvent event enable = { s with
            eventMask := s.eventMask &&& ~~~ bit eventId }) ∨
          s.requestEvent event enable = { s with
            eventMask := s.eventMask ||| bit eventId
            shutdownRequests := s.shutdownRequests + if eventId = shutdown then 1 else 0 }) := by
  unfold State.requestEvent
  split
  · rename_i hnamed
    dsimp only
    split
    · exact .inl rfl
    · rename_i hnot
      refine .inr ⟨⟨event, hnamed.1.trans (by decide)⟩, hnamed.1, ?_⟩
      by_cases henable : enable = 0
      · have hne : (⟨event, hnamed.1.trans (by decide)⟩ : Fin 64) ≠ shutdown := fun heq =>
          hnot ⟨heq, henable⟩
        exact .inl ⟨hne, by simp only [if_pos henable, if_neg hne, Nat.add_zero]⟩
      · exact .inr (by simp only [if_neg henable])
  · exact .inl rfl

/-! ## The stream -/

/-- How often the client was told of an overflow. -/
def overflows : List (Returned δ) → Nat
  | [] => 0
  | .overflow :: rs => overflows rs + 1
  | .event _ :: rs | .log _ :: rs => overflows rs

/-- The events that were received, each with the number of overflows before it. -/
def stamped : Nat → List (Returned δ) → List (Nat × Event δ)
  | _, [] => []
  | n, .overflow :: rs => stamped (n + 1) rs
  | n, .event e :: rs => (n, e) :: stamped n rs
  | n, .log _ :: rs => stamped n rs

theorem overflows_append (rs rs' : List (Returned δ)) :
    overflows (rs ++ rs') = overflows rs + overflows rs' := by
  induction rs with
  | nil => simp [overflows]
  | cons r rs ih =>
    cases r with
    | overflow =>
      simp only [List.cons_append, overflows, ih]
      omega
    | event e => exact ih
    | log entry => exact ih

theorem stamped_append (n : Nat) (rs rs' : List (Returned δ)) :
    stamped n (rs ++ rs') = stamped n rs ++ stamped (n + overflows rs) rs' := by
  induction rs generalizing n with
  | nil => simp [stamped, overflows]
  | cons r rs ih =>
    cases r with
    | overflow =>
      simp only [List.cons_append, stamped, overflows, ih]
      congr 2
      omega
    | event e => simp [stamped, overflows, ih]
    | log entry => simp [stamped, overflows, ih]

/-- The client gets what was accepted, and is told of what was not. -/
structure Stream (s : State δ size) : Prop where
  /-- What was received and what is in the ring is what was accepted, in this order, each event
      behind as many overflows as it was to be. -/
  inOrder : stamped 0 s.received ++ s.events.toList.map (Prod.mk (overflows s.received)) =
    s.accepted.map fun w => (w.stamp, w.event)
  /-- An event of `send_event` is behind an overflow for every time that the queue had choked. -/
  sent : ∀ w ∈ s.accepted, isReply w.event.eventId = false → w.stamp = w.gaps
  /-- A reply that was written while the queue was choked is before the overflow for that. -/
  replied : ∀ w ∈ s.accepted, w.choked = true → w.stamp + 1 = w.gaps
  /-- Each time that the queue has choked was reported, but for the last one while it is choked. -/
  reported : s.gaps = overflows s.received + s.choked.toNat

theorem Stream.same (h : Stream s) (hs : Same s s') : Stream s' := by
  refine ⟨?_, hs.accepted ▸ h.sent, hs.accepted ▸ h.replied, ?_⟩
  · rw [hs.events, hs.received, hs.accepted]
    exact h.inOrder
  · rw [hs.gaps, hs.received, hs.choked]
    exact h.reported

/-- A reply may be written at any time, and another event unless the queue is choked. -/
theorem Stream.appendEvent (h : Stream s) {e : Event δ}
    (he : isReply e.eventId = false → s.choked = false) (hs : s.appendEvent e = some s') :
    Stream s' := by
  by_cases hroom : s.events.count + s.reservedEvents < size
  · rw [appendEvent_of_room hroom] at hs
    cases hs
    have hreported := h.reported
    have hstamp : (⟨e, s.gaps, s.choked⟩ : Written δ).stamp = overflows s.received := by
      simp only [Written.stamp]
      omega
    refine ⟨?_, fun w hw => ?_, fun w hw => ?_, h.reported⟩
    · simp only [RingBuffer.toList_push, List.map_append, List.map_singleton, hstamp]
      rw [← List.append_assoc, h.inOrder]
    · obtain hw | hw := List.mem_append.mp hw
      · exact h.sent w hw
      · rw [List.mem_singleton.mp hw, hstamp]
        intro hsent
        simpa [he hsent] using hreported.symm
    · obtain hw | hw := List.mem_append.mp hw
      · exact h.replied w hw
      · rw [List.mem_singleton.mp hw, hstamp]
        intro hchoked
        have hchoked : s.choked = true := hchoked
        simpa [hchoked] using hreported.symm
  · rw [appendEvent_of_full hroom] at hs
    cases hs

theorem Stream.sendEvent (h : Stream s) (e : Event δ) : Stream (s.sendEvent e) := by
  obtain ⟨-, heq⟩ | ⟨-, t, ht, hcases⟩ := sendEvent_cases s e
  · rw [heq]
    exact h
  · have hstream : Stream t := by
      rw [ht]
      exact ⟨h.inOrder, h.sent, h.replied, h.reported⟩
    obtain ⟨-, heq⟩ | ⟨hchoked, happend⟩ | ⟨hchoked, -, heq⟩ := hcases
    · rw [heq]
      exact hstream
    · exact hstream.appendEvent (fun _ => ht ▸ hchoked) happend
    · rw [heq, ht]
      refine ⟨h.inOrder, h.sent, h.replied, ?_⟩
      have hreported := h.reported
      simp only [hchoked, Bool.toNat_false, Bool.toNat_true] at hreported ⊢
      omega

theorem Stream.look (h : Stream s) (expired : Bool) : Stream (s.look expired) := by
  obtain ⟨hchoked, hcount, heq⟩ | ⟨hpos, heq⟩ | ⟨-, -, ⟨entry, buffer, -, heq⟩ | ⟨-, heq⟩⟩ :=
    look_cases s expired
  · rw [heq]
    have hnil : s.events.toList = [] := RingBuffer.toList_eq_nil_iff.mpr hcount
    refine ⟨?_, h.sent, h.replied, ?_⟩
    · have hinOrder := h.inOrder
      simp only [State.ret, hnil, List.map_nil, List.append_nil, stamped_append] at hinOrder ⊢
      simpa [stamped] using hinOrder
    · have hreported := h.reported
      simp only [State.ret, overflows_append, overflows, hchoked, Bool.toNat_true,
        Bool.toNat_false] at hreported ⊢
      omega
  · rw [heq]
    have hinOrder := h.inOrder
    have hreported := h.reported
    refine ⟨?_, h.sent, h.replied, ?_⟩
    · rw [RingBuffer.toList_pop hpos] at hinOrder
      simpa [State.ret, stamped_append, overflows_append, stamped, overflows] using hinOrder
    · simpa [State.ret, overflows_append, overflows] using hreported
  · rw [heq]
    refine ⟨?_, h.sent, h.replied, ?_⟩
    · simpa [State.ret, stamped_append, overflows_append, stamped, overflows] using h.inOrder
    · simpa [State.ret, overflows_append, overflows] using h.reported
  · rw [heq]
    exact h.same ⟨rfl, rfl, rfl, rfl, rfl, rfl, rfl, rfl, rfl, rfl, rfl, rfl⟩

theorem Stream.step {l : Label δ} (h : Stream s) (hs : ClientEvents.step s l = some s') :
    Stream s' := by
  obtain hsame | ⟨e, -, -, rfl⟩ | ⟨userdata, -, rfl⟩ | ⟨userdata, e, -, -, he, rfl⟩ |
    ⟨event, enable, rfl⟩ |
    ⟨expired, rfl⟩ := step_cases hs
  · exact h.same hsame
  · exact h.sendEvent e
  · unfold State.reserveReply
    split
    · exact ⟨h.inOrder, h.sent, h.replied, h.reported⟩
    · exact h
  · obtain ⟨t, ht, hcases⟩ := sendReply_cases s userdata e
    have hstream : Stream t := by
      rw [ht]
      exact ⟨h.inOrder, h.sent, h.replied, h.reported⟩
    obtain happend | ⟨-, heq⟩ := hcases
    · refine hstream.appendEvent (fun hsent => ?_) happend
      rw [he] at hsent
      cases hsent
    · rw [heq]
      exact ⟨hstream.inOrder, hstream.sent, hstream.replied, hstream.reported⟩
  · obtain heq | ⟨eventId, -, ⟨-, heq⟩ | heq⟩ := requestEvent_cases s event enable
    · rw [heq]
      exact h
    · rw [heq]
      exact ⟨h.inOrder, h.sent, h.replied, h.reported⟩
    · rw [heq]
      exact ⟨h.inOrder, h.sent, h.replied, h.reported⟩
  · exact h.look expired

theorem stream_new (garbage : Fin size → Event δ) (h : 0 < size) : Stream (.new garbage h) :=
  ⟨rfl, nofun, nofun, rfl⟩

/-- In every reachable state the client has got the accepted events in order, and an overflow for
    every gap between them. -/
theorem stream_of_reachable (h : (client δ size).Reachable s) : Stream s := by
  refine h.invariant ?_ fun _ _ _ h _ hs => h.step hs
  rintro _ ⟨garbage, hsize, rfl⟩
  exact stream_new garbage hsize

/-- The reply to a request comes before the overflow that was due when it was written, and the next
    event comes behind that. -/
theorem stream_after_overflow : ∃ s : State Nat 2, Stream s ∧
    s.received = [.event { eventId := 8 }, .event { eventId := 5, replyUserdata := 7 }, .overflow,
      .event { eventId := 7 }] := by
  obtain ⟨s, hs, htest⟩ := Machine.Reachable.exec_any
    (.init ⟨fun _ => { eventId := 0 }, by decide, rfl⟩ : (client Nat 2).Reachable
      (.new (fun _ => { eventId := 0 }) (by decide)))
    [.request 7, .send { eventId := 8 }, .send { eventId := 21 }, .reply 7 { eventId := 5 }, .wait,
      .wait, .wait, .send { eventId := 7 }, .wait]
    (p := fun s => decide (s.received = [.event { eventId := 8 },
      .event { eventId := 5, replyUserdata := 7 }, .overflow, .event { eventId := 7 }]))
    (by decide +kernel)
  exact ⟨s, stream_of_reachable hs, of_decide_eq_true htest⟩

/-! ## Replies -/

/-- The requests that were replied to. -/
def replies (accepted : List (Written δ)) : List UInt64 :=
  (accepted.filter fun w => isReply w.event.eventId).map fun w => w.event.replyUserdata

theorem replies_concat (accepted : List (Written δ)) (w : Written δ) :
    replies (accepted ++ [w]) =
      replies accepted ++ if isReply w.event.eventId then [w.event.replyUserdata] else [] := by
  cases hw : isReply w.event.eventId <;> simp [replies, hw]

/-- Every request has its reply, or an entry that is reserved for it. -/
structure Replies (s : State δ size) : Prop where
  reserved : s.reservedEvents = s.outstanding.length
  room : s.events.count + s.reservedEvents ≤ size
  answered : s.requested.Perm (replies s.accepted ++ s.outstanding)
  /-- `send_reply` has found a reserved entry whenever it was called. -/
  asserts : s.failed = false

theorem Replies.same (h : Replies s) (hs : Same s s') : Replies s' := by
  refine ⟨?_, ?_, ?_, hs.failed ▸ h.asserts⟩
  · rw [hs.reservedEvents, hs.outstanding]
    exact h.reserved
  · rw [hs.events, hs.reservedEvents]
    exact h.room
  · rw [hs.requested, hs.outstanding, hs.accepted]
    exact h.answered

theorem Replies.sendEvent (h : Replies s) {e : Event δ} (he : isReply e.eventId = false) :
    Replies (s.sendEvent e) := by
  obtain ⟨-, heq⟩ | ⟨-, t, ht, ⟨-, heq⟩ | ⟨-, happend⟩ | ⟨-, -, heq⟩⟩ := sendEvent_cases s e
  · rw [heq]
    exact h
  · rw [heq, ht]
    exact ⟨h.reserved, h.room, h.answered, h.asserts⟩
  · by_cases hroom : t.events.count + t.reservedEvents < size
    · rw [appendEvent_of_room hroom] at happend
      rw [← Option.some.inj happend]
      subst ht
      refine ⟨h.reserved, ?_, ?_, h.asserts⟩
      · simp only [RingBuffer.count_push] at hroom ⊢
        omega
      · simpa only [replies_concat, he, Bool.false_eq_true, if_false, List.append_nil]
          using h.answered
    · rw [appendEvent_of_full hroom] at happend
      cases happend
  · rw [heq, ht]
    exact ⟨h.reserved, h.room, h.answered, h.asserts⟩

theorem Replies.sendReply (h : Replies s) {userdata : UInt64} {e : Event δ}
    (hmem : userdata ∈ s.outstanding) (he : isReply e.eventId = true) :
    Replies (s.sendReply userdata e) := by
  have hpos : 0 < s.reservedEvents := h.reserved ▸ List.length_pos_of_mem hmem
  have hroom := h.room
  obtain ⟨t, ht, happend | ⟨hfull, -⟩⟩ := sendReply_cases s userdata e
  · have hfree : t.events.count + t.reservedEvents < size := by
      rw [ht]
      dsimp only
      omega
    rw [appendEvent_of_room hfree] at happend
    rw [← Option.some.inj happend]
    refine ⟨?_, ?_, ?_, ?_⟩
    · simp only [ht, List.length_erase_of_mem hmem, h.reserved]
    · simp only [RingBuffer.count_push]
      omega
    · have hanswered := h.answered.trans
        ((List.perm_cons_erase hmem).append_left (replies s.accepted))
      simpa only [ht, replies_concat, he, if_true, List.append_assoc, List.singleton_append]
        using hanswered
    · simp [ht, h.asserts, hpos]
  · rw [ht] at hfull
    exact absurd (by dsimp only; omega) hfull

theorem Replies.step {l : Label δ} (h : Replies s) (hs : ClientEvents.step s l = some s') :
    Replies s' := by
  obtain hsame | ⟨e, -, he, rfl⟩ | ⟨userdata, -, rfl⟩ | ⟨userdata, e, -, hmem, he, rfl⟩ |
    ⟨event, enable, rfl⟩ | ⟨expired, rfl⟩ := step_cases hs
  · exact h.same hsame
  · exact h.sendEvent he
  · unfold State.reserveReply
    split
    · rename_i hcond
      refine ⟨?_, ?_, ?_, h.asserts⟩
      · simp [h.reserved]
      · dsimp only
        omega
      · have hanswered := h.answered.append_right [userdata]
        rwa [List.append_assoc] at hanswered
    · exact h
  · exact h.sendReply hmem he
  · obtain heq | ⟨eventId, -, ⟨-, heq⟩ | heq⟩ := requestEvent_cases s event enable
    · rw [heq]
      exact h
    · rw [heq]
      exact ⟨h.reserved, h.room, h.answered, h.asserts⟩
    · rw [heq]
      exact ⟨h.reserved, h.room, h.answered, h.asserts⟩
  · obtain ⟨-, -, heq⟩ | ⟨hpos, heq⟩ | ⟨-, -, ⟨entry, buffer, -, heq⟩ | ⟨-, heq⟩⟩ :=
      look_cases s expired
    · rw [heq]
      exact ⟨h.reserved, h.room, h.answered, h.asserts⟩
    · rw [heq]
      refine ⟨h.reserved, ?_, h.answered, h.asserts⟩
      have hroom := h.room
      simp only [State.ret, RingBuffer.count_pop]
      omega
    · rw [heq]
      exact ⟨h.reserved, h.room, h.answered, h.asserts⟩
    · rw [heq]
      exact ⟨h.reserved, h.room, h.answered, h.asserts⟩

theorem replies_of_reachable (h : (client δ size).Reachable s) : Replies s := by
  refine h.invariant ?_ fun _ _ _ h _ hs => h.step hs
  rintro _ ⟨garbage, hsize, rfl⟩
  exact ⟨rfl, Nat.zero_le _, .nil, rfl⟩

/-- In every reachable state each request that was accepted has one reply in the ring or received,
    or an entry of the ring to itself. -/
theorem answered_of_reachable (h : (client δ size).Reachable s) :
    s.requested.Perm (replies s.accepted ++ s.outstanding) ∧
      s.events.count + s.outstanding.length ≤ size ∧ s.failed = false := by
  have hreplies := replies_of_reachable h
  exact ⟨hreplies.answered, hreplies.reserved ▸ hreplies.room, hreplies.asserts⟩

/-- The reply finds its entry though the queue has choked. -/
theorem answered_while_choked : ∃ s : State Nat 2,
    s.requested.Perm (replies s.accepted ++ s.outstanding) ∧ s.choked = true ∧
    s.accepted = [⟨{ eventId := 8 }, 0, false⟩, ⟨{ eventId := 5, replyUserdata := 7 }, 1, true⟩] := by
  obtain ⟨s, hs, htest⟩ := Machine.Reachable.exec_any
    (.init ⟨fun _ => { eventId := 0 }, by decide, rfl⟩ : (client Nat 2).Reachable
      (.new (fun _ => { eventId := 0 }) (by decide)))
    [.request 7, .send { eventId := 8 }, .send { eventId := 21 }, .request 9,
      .reply 7 { eventId := 5 }]
    (p := fun s => decide (s.choked = true ∧
      s.accepted =
        [⟨{ eventId := 8 }, 0, false⟩, ⟨{ eventId := 5, replyUserdata := 7 }, 1, true⟩]))
    (by decide +kernel)
  exact ⟨s, (answered_of_reachable hs).1, of_decide_eq_true htest⟩

/-! ## The mask -/

/-- The event is let through by the mask. -/
def enabled (mask : BitVec 64) (eventId : Fin 64) : Bool := mask.getLsbD eventId

theorem enabled_bit (i j : Fin 64) : enabled (bit j) i = decide (j = i) := by
  have hbit : bit j = BitVec.twoPow 64 j := rfl
  rw [enabled, hbit, BitVec.getLsbD_twoPow]
  simp [j.isLt, Fin.ext_iff]

@[simp] theorem enabled_or (mask : BitVec 64) (i j : Fin 64) :
    enabled (mask ||| bit j) i = (enabled mask i || decide (j = i)) := by
  rw [← enabled_bit, enabled, BitVec.getLsbD_or]
  rfl

@[simp] theorem enabled_not_bit (i j : Fin 64) : enabled (~~~ bit j) i = !decide (j = i) := by
  rw [← enabled_bit, enabled, BitVec.getLsbD_not, decide_eq_true i.isLt, Bool.true_and]
  rfl

@[simp] theorem enabled_and (mask mask' : BitVec 64) (i : Fin 64) :
    enabled (mask &&& mask') i = (enabled mask i && enabled mask' i) :=
  BitVec.getLsbD_and

/-- The test of `send_event`. -/
theorem and_bit_ne_zero {mask : BitVec 64} {i : Fin 64} :
    mask &&& bit i ≠ 0 ↔ enabled mask i = true := by
  have hbit : bit i = BitVec.twoPow 64 i := rfl
  rw [hbit, BitVec.and_twoPow, ← hbit]
  change (if enabled mask i = true then bit i else 0#64) ≠ 0 ↔ _
  cases enabled mask i with
  | false => simp
  | true =>
    refine iff_of_true (fun hzero => ?_) rfl
    have hself := enabled_bit i i
    rw [if_pos rfl] at hzero
    rw [hzero] at hself
    simp [enabled] at hself

/-- How often an event was accepted. -/
def acceptances (eventId : Fin 64) (accepted : List (Written δ)) : Nat :=
  accepted.countP fun w => w.event.eventId = eventId

/-- The client gets no event that it did not ask for. -/
structure Masked (s : State δ size) : Prop where
  /-- The events of the core itself are not let through, and not sent. -/
  internal : ∀ i : Fin 64, internalEventBase ≤ i.val → enabled s.eventMask i = false
  named : ∀ w ∈ s.accepted, w.event.eventId.val < internalEventBase
  /-- `MPV_EVENT_SHUTDOWN` is sent once, and once more each time it is asked for. -/
  shutdowns : acceptances shutdown s.accepted + (enabled s.eventMask shutdown).toNat ≤
    1 + s.shutdownRequests

theorem isReply_named {eventId : Fin 64} (h : isReply eventId = true) :
    eventId.val < internalEventBase ∧ eventId ≠ shutdown := by
  simp only [isReply, decide_eq_true_eq] at h
  obtain rfl | rfl | rfl := h <;> decide

theorem Masked.same (h : Masked s) (hs : Same s s') : Masked s' := by
  refine ⟨?_, ?_, ?_⟩
  · rw [hs.eventMask]
    exact h.internal
  · rw [hs.accepted]
    exact h.named
  · rw [hs.accepted, hs.eventMask, hs.shutdownRequests]
    exact h.shutdowns

/-- An event is written that is let through, or is a reply. -/
theorem Masked.appendEvent (h : Masked s) {e : Event δ} (hs : s.appendEvent e = some s')
    (hnamed : e.eventId.val < internalEventBase)
    (hshutdown : e.eventId = shutdown → enabled s.eventMask shutdown = true) : Masked s' := by
  by_cases hroom : s.events.count + s.reservedEvents < size
  · rw [appendEvent_of_room hroom] at hs
    rw [← Option.some.inj hs]
    have hnamed' : ∀ w ∈ s.accepted ++ [⟨e, s.gaps, s.choked⟩],
        w.event.eventId.val < internalEventBase := by
      intro w hw
      obtain hw | hw := List.mem_append.mp hw
      · exact h.named w hw
      · exact List.mem_singleton.mp hw ▸ hnamed
    have hshutdowns := h.shutdowns
    by_cases he : e.eventId = shutdown
    · refine ⟨fun i hi => ?_, hnamed', ?_⟩
      · simp [he, h.internal i hi]
      · rw [hshutdown he] at hshutdowns
        simp only [acceptances, List.countP_append, List.countP_singleton, he, decide_true, if_true,
          enabled_and, enabled_not_bit, Bool.not_true, Bool.and_false, Bool.toNat_true,
          Bool.toNat_false] at hshutdowns ⊢
        omega
    · refine ⟨fun i hi => ?_, hnamed', ?_⟩
      · simp only [he, if_false]
        exact h.internal i hi
      · simpa [acceptances, he] using hshutdowns
  · rw [appendEvent_of_full hroom] at hs
    cases hs

theorem Masked.step {l : Label δ} (h : Masked s) (hs : ClientEvents.step s l = some s') :
    Masked s' := by
  obtain hsame | ⟨e, -, -, rfl⟩ | ⟨userdata, -, rfl⟩ | ⟨userdata, e, -, -, he, rfl⟩ |
    ⟨event, enable, rfl⟩ | ⟨expired, rfl⟩ := step_cases hs
  · exact h.same hsame
  · obtain ⟨-, heq⟩ | ⟨hmask, t, ht, hcases⟩ := sendEvent_cases s e
    · rw [heq]
      exact h
    · have hmasked : Masked t := by
        rw [ht]
        exact ⟨h.internal, h.named, h.shutdowns⟩
      obtain ⟨-, heq⟩ | ⟨-, happend⟩ | ⟨-, -, heq⟩ := hcases
      · rw [heq]
        exact hmasked
      · have hbit : enabled t.eventMask e.eventId = true := ht ▸ and_bit_ne_zero.mp hmask
        refine hmasked.appendEvent happend ?_ fun he => he ▸ hbit
        by_contra hinternal
        rw [hmasked.internal _ (by omega)] at hbit
        cases hbit
      · rw [heq]
        exact ⟨hmasked.internal, hmasked.named, hmasked.shutdowns⟩
  · unfold State.reserveReply
    split
    · exact ⟨h.internal, h.named, h.shutdowns⟩
    · exact h
  · obtain ⟨t, ht, hcases⟩ := sendReply_cases s userdata e
    have hmasked : Masked t := by
      rw [ht]
      exact ⟨h.internal, h.named, h.shutdowns⟩
    obtain ⟨hnamed, hne⟩ := isReply_named he
    obtain happend | ⟨-, heq⟩ := hcases
    · exact hmasked.appendEvent happend hnamed fun habs => absurd habs hne
    · rw [heq]
      exact ⟨hmasked.internal, hmasked.named, hmasked.shutdowns⟩
  · obtain heq | ⟨eventId, hnamed, ⟨hne, heq⟩ | heq⟩ := requestEvent_cases s event enable
    · rw [heq]
      exact h
    · rw [heq]
      refine ⟨fun i hi => ?_, h.named, ?_⟩
      · simp [h.internal i hi]
      · simpa [hne] using h.shutdowns
    · rw [heq]
      refine ⟨fun i hi => ?_, h.named, ?_⟩
      · have hother : eventId ≠ i := by
          rintro rfl
          omega
        simp [h.internal i hi, hother]
      · have hshutdowns := h.shutdowns
        by_cases he : eventId = shutdown
        · have hle := Bool.toNat_le (enabled (s.eventMask ||| bit eventId) shutdown)
          simp only [he, if_true] at hle ⊢
          omega
        · simpa [he] using hshutdowns
  · obtain ⟨-, -, heq⟩ | ⟨hpos, heq⟩ | ⟨-, -, ⟨entry, buffer, -, heq⟩ | ⟨-, heq⟩⟩ :=
      look_cases s expired <;> rw [heq] <;> exact ⟨h.internal, h.named, h.shutdowns⟩

/-- In every reachable state the client has got only events that it can name, and
    `MPV_EVENT_SHUTDOWN` once however often the core has sent it. -/
theorem masked_of_reachable (h : (client δ size).Reachable s) : Masked s := by
  refine h.invariant ?_ fun _ _ _ h _ hs => h.step hs
  rintro _ ⟨garbage, hsize, rfl⟩
  have hmask : (State.new garbage hsize).eventMask =
      (1#64 <<< internalEventBase - 1) &&& ~~~ bit tick := rfl
  refine ⟨?_, nofun, ?_⟩
  · rw [hmask]
    decide
  · rw [hmask]
    exact (Nat.zero_add _).trans_le (Bool.toNat_le _)

/-- The second shutdown event is not let through, nor is one of the core's own. -/
theorem masked_after_shutdown : ∃ s : State Nat 2, Masked s ∧
    s.accepted = [⟨{ eventId := 1 }, 0, false⟩] := by
  obtain ⟨s, hs, htest⟩ := Machine.Reachable.exec_any
    (.init ⟨fun _ => { eventId := 0 }, by decide, rfl⟩ : (client Nat 2).Reachable
      (.new (fun _ => { eventId := 0 }) (by decide)))
    [.send { eventId := 1 }, .send { eventId := 27 }, .send { eventId := 1 }]
    (p := fun s => decide (s.accepted = [⟨{ eventId := 1 }, 0, false⟩]))
    (by decide +kernel)
  exact ⟨s, masked_of_reachable hs, of_decide_eq_true htest⟩

end ClientEvents
