-- SUMMARY: The event queue of an mpv client handle: the ring, and the flag that says that a wakeup is due.
import KitPlayerCore.Mpv.Client

/-!
# The event queue

Events are appended to a ring of fixed size. The client is called back only when
`need_wakeup` becomes true, and `mpv_wait_event` makes it false only after it has
found the ring empty.
-/

namespace Mpv

/-- The part of `mpv_handle` that holds events. -/
structure EventQueue where
  /-- The events in the ring, the first one first. -/
  ring : List Event := []
  choked : Bool := false
  needWakeup : Bool := false
  deriving DecidableEq, Repr

namespace EventQueue

/-- The number of entries in the ring. -/
def maxEvents : Nat := 1000

/-- `send_event` up to `wakeup_client`, which it calls unless the event was dropped. -/
def append (q : EventQueue) (e : Event) : EventQueue × Bool :=
  if q.choked then (q, false)
  else if q.ring.length < maxEvents then ({ q with ring := q.ring ++ [e] }, true)
  else ({ q with choked := true }, false)

/-- What `mpv_wait_event` finds under the lock. -/
def next (q : EventQueue) : Option (Event × EventQueue) :=
  match q.ring with
  | [] => if q.choked then some (⟨.queueOverflow, .none⟩, { q with choked := false }) else none
  | e :: es => some (e, { q with ring := es })

theorem append_of_room {q : EventQueue} {e : Event} (hc : q.choked = false)
    (hl : q.ring.length < maxEvents) : q.append e = ({ q with ring := q.ring ++ [e] }, true) := by
  simp [append, hc, hl]

theorem next_eq_none_iff {q : EventQueue} (hc : q.choked = false) :
    q.next = none ↔ q.ring = [] := by
  unfold next
  split <;> simp_all

end EventQueue

end Mpv
