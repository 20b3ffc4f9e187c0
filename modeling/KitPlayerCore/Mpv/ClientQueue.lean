-- SUMMARY: That the ring of a client that makes no asynchronous requests is a queue of events, as the models of the player have it.
import KitPlayerCore.Mpv.ClientStream

/-!
# The ring as a queue

The player makes no asynchronous requests. What the models of the player say of its events they
say of `EventQueue`, which is what such a client sees of its ring.
-/

namespace ClientEvents

open Container Mpv Transition

/-- The number of an event in `mpv_event_id`, whose events `EventId` has in their order. -/
def number (eventId : EventId) : Fin 64 := ⟨eventId.ctorIdx, by cases eventId <;> decide⟩

/-- The event as an entry of the ring. -/
def entry (e : Mpv.Event) : Event EventData := { eventId := number e.eventId, data := some e.data }

/-- What the client sees of an entry. -/
def Shows : Returned EventData → Mpv.Event → Prop
  | .overflow, e => e = ⟨.queueOverflow, .none⟩
  | .event e', e => e' = entry e
  | .log _, _ => False

/-- What was received and is no log message. -/
def events (received : List (Returned EventData)) : List (Returned EventData) :=
  received.filter fun
    | .log _ => false
    | .overflow | .event _ => true

/-- Sending to the queue, and taking from it. -/
inductive QueueLabel where
  | send (e : Mpv.Event)
  | take

/-- The queue, with what was sent to it and what was taken from it. -/
structure QueueState where
  queue : EventQueue := {}
  sent : List Mpv.Event := []
  taken : List Mpv.Event := []

def queueStep (q : QueueState) : QueueLabel → Option QueueState
  | .send e => some { q with queue := (q.queue.append e).1, sent := q.sent ++ [e] }
  | .take => q.queue.next.map fun r => { q with queue := r.2, taken := q.taken ++ [r.1] }

def queue : Machine QueueState QueueLabel where
  init q := q = {}
  step := queueStep

/-- The steps of such a client. An event that the mask does not let through is sent, too. -/
def Plain (_ : State EventData EventQueue.maxEvents) : Label EventData → Prop
  | .send e => ∃ e', e = entry e'
  | .request _ | .reply _ _ => False
  | _ => True

/-- The queue was sent what the mask has let through, the ring holds what the queue holds, and the
    client has got what was taken from that. -/
structure Refines (s : State EventData EventQueue.maxEvents) (q : QueueState) : Prop where
  reached : queue.Reachable q
  passed : s.passed = q.sent.map entry
  ring : s.events.toList = q.queue.ring.map entry
  choked : s.choked = q.queue.choked
  received : List.Forall₂ Shows (events s.received) q.taken
  reserved : s.reservedEvents = 0

variable {s s' : State EventData EventQueue.maxEvents} {q : QueueState}

theorem Refines.same (h : Refines s q) (hs : Same s s') : Refines s' q :=
  ⟨h.reached, hs.passed ▸ h.passed, hs.events ▸ h.ring, hs.choked ▸ h.choked,
    hs.received ▸ h.received, hs.reservedEvents ▸ h.reserved⟩

theorem Refines.count (h : Refines s q) : s.events.count = q.queue.ring.length := by
  rw [← RingBuffer.length_toList, h.ring, List.length_map]

/-- What the mask lets through is sent to the queue, and what it does not is no step of that. -/
theorem Refines.sendEvent (h : Refines s q) (e : Mpv.Event) :
    ∃ q', Refines (s.sendEvent (entry e)) q' := by
  obtain ⟨-, heq⟩ | ⟨-, t, ht, hcases⟩ := sendEvent_cases s (entry e)
  · rw [heq]
    exact ⟨q, h⟩
  · have hcount := h.count
    have hreach : queue.Reachable
        { q with queue := (q.queue.append e).1, sent := q.sent ++ [e] } :=
      h.reached.step (l := .send e) trivial rfl
    have hpassed : s.passed ++ [entry e] = (q.sent ++ [e]).map entry := by
      rw [h.passed, List.map_append, List.map_singleton]
    refine ⟨{ q with queue := (q.queue.append e).1, sent := q.sent ++ [e] }, ?_⟩
    obtain ⟨hchoked, heq⟩ | ⟨hchoked, happend⟩ | ⟨hchoked, hfull, heq⟩ := hcases
    · have hsame : q.queue.append e = (q.queue, false) := by
        rw [EventQueue.append, if_pos (h.choked ▸ hchoked)]
      rw [hsame] at hreach ⊢
      rw [heq, ht]
      exact ⟨hreach, hpassed, h.ring, h.choked, h.received, h.reserved⟩
    · have hfree : q.queue.choked = false := h.choked ▸ hchoked
      by_cases hroom : t.events.count + t.reservedEvents < EventQueue.maxEvents
      · rw [appendEvent_of_room hroom] at happend
        rw [← Option.some.inj happend]
        subst ht
        have hlength : q.queue.ring.length < EventQueue.maxEvents := by
          rw [← hcount]
          exact (Nat.le_add_right _ _).trans_lt hroom
        rw [EventQueue.append_of_room hfree hlength] at hreach ⊢
        refine ⟨hreach, hpassed, ?_, h.choked, h.received, h.reserved⟩
        simp only [RingBuffer.toList_push, h.ring, List.map_append, List.map_singleton]
      · rw [appendEvent_of_full hroom] at happend
        cases happend
    · have hlength : ¬ q.queue.ring.length < EventQueue.maxEvents := by
        rw [← hcount]
        have hzero := h.reserved
        omega
      have happend : q.queue.append e = ({ q.queue with choked := true }, false) := by
        rw [EventQueue.append, if_neg (by rw [← h.choked, hchoked]; decide), if_neg hlength]
      rw [happend] at hreach ⊢
      rw [heq, ht]
      exact ⟨hreach, hpassed, h.ring, rfl, h.received, h.reserved⟩

theorem Refines.look (h : Refines s q) (expired : Bool) : ∃ q', Refines (s.look expired) q' := by
  have hcount := h.count
  have htake {r : Mpv.Event × EventQueue} (hr : q.queue.next = some r) :
      queue.Reachable { q with queue := r.2, taken := q.taken ++ [r.1] } :=
    h.reached.step (l := .take) trivial (by simp [queue, queueStep, hr])
  have hreceived {r : Returned EventData} : events (s.received ++ [r]) =
      events s.received ++ events [r] := List.filter_append ..
  obtain ⟨hchoked, hzero, heq⟩ | ⟨hpos, heq⟩ | ⟨-, -, ⟨logged, buffer, -, heq⟩ | ⟨-, heq⟩⟩ :=
    look_cases s expired
  · have hring : q.queue.ring = [] := List.length_eq_zero_iff.mp (hcount ▸ hzero)
    have hnext : q.queue.next =
        some (⟨.queueOverflow, .none⟩, { q.queue with choked := false }) := by
      rw [EventQueue.next, hring]
      dsimp only
      rw [if_pos (h.choked ▸ hchoked), hring]
    rw [heq]
    refine ⟨_, htake hnext, h.passed, h.ring, rfl, ?_, h.reserved⟩
    rw [State.ret, hreceived]
    exact List.rel_append h.received (.cons rfl .nil)
  · obtain ⟨e, es, hring⟩ := List.exists_cons_of_ne_nil
      (List.ne_nil_of_length_pos (hcount ▸ hpos))
    have hnext : q.queue.next = some (e, { q.queue with ring := es }) := by
      rw [EventQueue.next, hring]
    have hlist := h.ring
    rw [RingBuffer.toList_pop hpos, hring, List.map_cons, List.cons.injEq] at hlist
    rw [heq]
    refine ⟨_, htake hnext, h.passed, hlist.2, h.choked, ?_, h.reserved⟩
    rw [State.ret, hreceived]
    exact List.rel_append h.received (.cons hlist.1 .nil)
  · rw [heq]
    refine ⟨q, h.reached, h.passed, h.ring, h.choked, ?_, h.reserved⟩
    have hlog : events [.log logged] = [] := rfl
    rw [State.ret, hreceived, hlog, List.append_nil]
    exact h.received
  · rw [heq]
    exact ⟨q, h.reached, h.passed, h.ring, h.choked, h.received, h.reserved⟩

theorem Refines.step {l : Label EventData} (h : Refines s q) (hl : Plain s l)
    (hs : ClientEvents.step s l = some s') : ∃ q', Refines s' q' := by
  obtain hsame | ⟨e, rfl, -, rfl⟩ | ⟨userdata, rfl, -⟩ | ⟨userdata, e, rfl, -⟩ |
    ⟨event, enable, rfl⟩ | ⟨expired, rfl⟩ := step_cases hs
  · exact ⟨q, h.same hsame⟩
  · obtain ⟨e, rfl⟩ := hl
    exact h.sendEvent e
  · exact hl.elim
  · exact hl.elim
  · obtain heq | ⟨_, -, ⟨-, heq⟩ | heq⟩ := requestEvent_cases s event enable <;> rw [heq]
    · exact ⟨q, h⟩
    · exact ⟨q, h.reached, h.passed, h.ring, h.choked, h.received, h.reserved⟩
    · exact ⟨q, h.reached, h.passed, h.ring, h.choked, h.received, h.reserved⟩
  · exact h.look expired

theorem plain_send (s : State EventData EventQueue.maxEvents) (e : Mpv.Event) :
    Plain s (.send (entry e)) := ⟨e, rfl⟩

/-- As many events as there is room for can be sent to a client, after one that it does not want. -/
theorem filled {n : Nat} (hn : n ≤ EventQueue.maxEvents) :
    ∃ s, (client EventData EventQueue.maxEvents).Under Plain s ∧ s.events.count = n ∧
      s.choked = false ∧ s.gaps = 0 ∧ s.reservedEvents = 0 ∧
      enabled s.eventMask (number .fileLoaded) = true := by
  induction n with
  | zero =>
    have hnew : (client EventData EventQueue.maxEvents).Under Plain
        (.new (fun _ => entry ⟨.none, .none⟩) (by decide)) := .init ⟨_, _, rfl⟩
    exact ⟨_, hnew.step (plain_send _ ⟨.tick, .none⟩) rfl, by decide +kernel⟩
  | succ n ih =>
    obtain ⟨s, hs, hcount, hchoked, hgaps, hzero, henabled⟩ := ih (by omega)
    have hsent := hs.step (plain_send s ⟨.fileLoaded, .none⟩) rfl
    obtain ⟨hmask, -⟩ | ⟨-, t, ht, ⟨habs, -⟩ | ⟨-, happend⟩ | ⟨-, hfull, -⟩⟩ :=
      sendEvent_cases s (entry ⟨.fileLoaded, .none⟩)
    · exact absurd hmask (and_bit_ne_zero.mpr henabled)
    · rw [hchoked] at habs
      cases habs
    · subst ht
      rw [appendEvent_of_room (by dsimp only; omega)] at happend
      rw [← Option.some.inj happend] at hsent
      exact ⟨_, hsent, congrArg (· + 1) hcount, hchoked, hgaps, hzero, henabled⟩
    · omega

end ClientEvents
