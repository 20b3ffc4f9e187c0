-- SUMMARY: The log buffer of `msg.c` between the threads that log and the client that reads, and that no message is lost unreported.
import KitPlayerCore.Container.RingBuffer
import KitPlayerCore.Transition.Machine

/-!
# Log buffers

A client that asks for log messages gets a buffer of its own. Whoever logs writes to it,
over the oldest message if it is full. The reader is told how many it has missed.
-/

namespace Mpv

open Container Transition

/-- `MSGL_*`. -/
inductive LogLevel where
  | fatal | err | warn | info | status | v | debug | trace | stats
  deriving DecidableEq, Repr

def LogLevel.toNat : LogLevel → Nat
  | .fatal => 0
  | .err => 1
  | .warn => 2
  | .info => 3
  | .status => 4
  | .v => 5
  | .debug => 6
  | .trace => 7
  | .stats => 8

/-- `struct mp_log_buffer_entry`. -/
structure LogMessage where
  verbosePrefix : String
  level : LogLevel
  text : String
  deriving DecidableEq, Repr

/-- What `mp_msg_log_buffer_read` returns. -/
inductive LogEntry where
  | message (m : LogMessage)
  /-- The message that `dropped` others were skipped. -/
  | overflow (dropped : Nat)
  deriving DecidableEq, Repr

/-- `struct mp_log_buffer`. -/
structure LogBuffer where
  capacity : Nat
  entries : RingBuffer LogMessage capacity
  /-- `none` is `MP_LOG_BUFFER_MSGL_TERM`. -/
  level : Option LogLevel
  dropped : Nat := 0
  silent : Bool := false

namespace LogBuffer

/-- `mp_msg_log_buffer_new`. -/
def new (capacity : Nat) (level : Option LogLevel) (garbage : LogMessage) (h : 0 < capacity) :
    LogBuffer where
  capacity := capacity
  entries := .empty (fun _ => garbage) h
  level := level

/-- The test of `write_msg_to_buffers`. `terminalLevel` is the level of the terminal, where that is
    one: below `MSGL_FATAL` it would let nothing through. -/
def accepts (buffer : LogBuffer) (terminalLevel lev : LogLevel) : Bool :=
  lev.toNat ≤ (buffer.level.getD terminalLevel).toNat && lev != .status

/-- `write_msg_to_buffers` for one buffer, and whether it calls `wakeup_cb`. -/
def write (buffer : LogBuffer) (terminalLevel : LogLevel) (m : LogMessage) : LogBuffer × Bool :=
  if buffer.accepts terminalLevel m.level then
    if h : buffer.entries.count < buffer.capacity then
      ({ buffer with entries := buffer.entries.push m h }, !buffer.silent)
    else
      ({ buffer with
        entries := buffer.entries.pushOver m h
        dropped := buffer.dropped + 1 }, !buffer.silent)
  else (buffer, false)

theorem write_of_room {buffer : LogBuffer} {terminalLevel : LogLevel} {m : LogMessage}
    (haccepts : buffer.accepts terminalLevel m.level = true)
    (h : buffer.entries.count < buffer.capacity) :
    buffer.write terminalLevel m = ({ buffer with entries := buffer.entries.push m h },
      !buffer.silent) := by
  rw [write, if_pos haccepts, dif_pos h]

theorem write_of_full {buffer : LogBuffer} {terminalLevel : LogLevel} {m : LogMessage}
    (haccepts : buffer.accepts terminalLevel m.level = true)
    (h : ¬ buffer.entries.count < buffer.capacity) :
    buffer.write terminalLevel m = ({ buffer with
      entries := buffer.entries.pushOver m h
      dropped := buffer.dropped + 1 }, !buffer.silent) := by
  rw [write, if_pos haccepts, dif_neg h]

/-- `mp_msg_log_buffer_read`. -/
def read (buffer : LogBuffer) : Option (LogEntry × LogBuffer) :=
  if h : buffer.silent = false ∧ 0 < buffer.entries.count then
    if 0 < buffer.dropped then some (.overflow buffer.dropped, { buffer with dropped := 0 })
    else
      some (.message (buffer.entries.pop h.2).1,
        { buffer with entries := (buffer.entries.pop h.2).2 })
  else none

/-! ## Runs -/

/-- A buffer, with the messages that were accepted and the entries that were read. -/
structure State where
  buffer : LogBuffer
  written : List LogMessage := []
  entriesRead : List LogEntry := []

inductive Label where
  | write (terminalLevel : LogLevel) (m : LogMessage)
  | read
  /-- `mp_msg_log_buffer_set_silent`. -/
  | setSilent (silent : Bool)

def step (s : State) : Label → Option State
  | .write terminalLevel m =>
    some { s with
      buffer := (s.buffer.write terminalLevel m).1
      written := if s.buffer.accepts terminalLevel m.level then s.written ++ [m] else s.written }
  | .read =>
    s.buffer.read.map fun r =>
      { s with buffer := r.2, entriesRead := s.entriesRead ++ [r.1] }
  | .setSilent silent => some { s with buffer := { s.buffer with silent := silent } }

/-- A buffer from `mp_msg_log_buffer_new` on. -/
def logging : Machine State Label where
  init s := ∃ capacity level garbage h, s = { buffer := .new capacity level garbage h }
  step := step

/-! ## What the reader can tell -/

/-- Go through the messages as the entries say, and return what is left of them. -/
def follow : List LogMessage → List LogEntry → Option (List LogMessage)
  | ms, [] => some ms
  | m :: ms, .message m' :: es => if m' = m then follow ms es else none
  | [], .message _ :: _ => none
  | ms, .overflow dropped :: es =>
    if dropped ≤ ms.length then follow (ms.drop dropped) es else none

theorem follow_append {ms rest : List LogMessage} {es : List LogEntry} (h : follow ms es = some rest)
    (es' : List LogEntry) : follow ms (es ++ es') = follow rest es' := by
  fun_induction follow ms es with
  | case1 ms =>
    cases h
    rfl
  | case2 m ms es ih => simpa [follow] using ih h
  | case3 => cases h
  | case4 => cases h
  | case5 ms dropped es hle ih => simpa [follow, hle] using ih h
  | case6 => cases h

theorem follow_extend {ms rest : List LogMessage} {es : List LogEntry} (h : follow ms es = some rest)
    (ms' : List LogMessage) : follow (ms ++ ms') es = some (rest ++ ms') := by
  fun_induction follow ms es with
  | case1 ms =>
    cases h
    simp [follow]
  | case2 m ms es ih => simpa [follow] using ih h
  | case3 => cases h
  | case4 => cases h
  | case5 ms dropped es hle ih =>
    have hle' : dropped ≤ (ms ++ ms').length := by
      rw [List.length_append]
      omega
    rw [follow, if_pos hle', List.drop_append_of_le_length hle]
    exact ih h
  | case6 => cases h

/-- What was read, what was dropped since and what is in the buffer make up what was written. -/
structure Accounts (s : State) : Prop where
  follows : ∃ skipped, follow s.written s.entriesRead = some (skipped ++ s.buffer.entries.toList) ∧
    skipped.length = s.buffer.dropped

theorem Accounts.step {s s' : State} {l : Label} (h : Accounts s) (hs : LogBuffer.step s l = some s') :
    Accounts s' := by
  obtain ⟨skipped, hfollow, hdropped⟩ := h.follows
  cases l with
  | write terminalLevel m =>
    cases hs
    by_cases haccepts : s.buffer.accepts terminalLevel m.level = true
    · have hextend := follow_extend hfollow [m]
      rw [List.append_assoc] at hextend
      by_cases hroom : s.buffer.entries.count < s.buffer.capacity
      · refine ⟨skipped, ?_, ?_⟩
        · rw [write_of_room haccepts hroom]
          simpa only [haccepts, if_true, RingBuffer.toList_push] using hextend
        · rw [write_of_room haccepts hroom]
          exact hdropped
      · -- the oldest message in the buffer is skipped after those that were skipped before
        obtain ⟨hpos, -⟩ := RingBuffer.room_of_full hroom
        refine ⟨skipped ++ [(s.buffer.entries.pop hpos).1], ?_, ?_⟩
        · rw [write_of_full haccepts hroom]
          simpa only [haccepts, if_true, RingBuffer.toList_pushOver, RingBuffer.toList_pop hpos,
            List.tail_cons, List.append_assoc, List.cons_append, List.nil_append] using hextend
        · rw [write_of_full haccepts hroom]
          simpa using hdropped
    · have hwrite : s.buffer.write terminalLevel m = (s.buffer, false) := if_neg haccepts
      refine ⟨skipped, ?_, ?_⟩
      · rw [hwrite]
        simpa [haccepts] using hfollow
      · rw [hwrite]
        exact hdropped
  | read =>
    obtain ⟨⟨e, buffer⟩, hread, rfl⟩ := Option.map_eq_some_iff.mp hs
    simp only [read] at hread
    split at hread
    · rename_i hcond
      split at hread <;> cases hread
      · refine ⟨[], ?_, rfl⟩
        rw [follow_append hfollow]
        simp [follow, ← hdropped]
      · rename_i hzero
        have hnil : skipped = [] := List.length_eq_zero_iff.mp (by omega)
        refine ⟨[], ?_, by simpa [hnil] using hdropped⟩
        rw [follow_append hfollow, hnil, List.nil_append, RingBuffer.toList_pop hcond.2]
        simp [follow]
    · cases hread
  | setSilent silent =>
    cases hs
    exact ⟨skipped, hfollow, hdropped⟩

/-- In every reachable state the entries read so far tell exactly which messages the reader got and
    how many it missed between them. -/
theorem accounts_of_reachable {s : State} (h : logging.Reachable s) : Accounts s := by
  refine h.invariant ?_ fun _ _ _ h _ hs => h.step hs
  rintro _ ⟨capacity, level, garbage, hcapacity, rfl⟩
  exact ⟨[], rfl, rfl⟩

/-- The reader learns that it has missed the first of three messages. -/
theorem accounts_after_overflow : ∃ s, Accounts s ∧
    s.entriesRead = [.overflow 1, .message ⟨"cplayer", .info, "b"⟩] := by
  obtain ⟨s, hs, htest⟩ := Machine.Reachable.exec_any
    (.init ⟨2, some .v, ⟨"", .stats, ""⟩, by decide, rfl⟩ : logging.Reachable
      { buffer := .new 2 (some .v) ⟨"", .stats, ""⟩ (by decide) })
    [.write .err ⟨"cplayer", .info, "a"⟩, .write .err ⟨"cplayer", .info, "b"⟩,
      .write .err ⟨"vo", .status, "hidden"⟩, .write .err ⟨"vo", .v, "c"⟩, .read, .read]
    (p := fun s => decide (s.entriesRead = [.overflow 1, .message ⟨"cplayer", .info, "b"⟩]))
    (by decide +kernel)
  exact ⟨s, accounts_of_reachable hs, of_decide_eq_true htest⟩

end LogBuffer

end Mpv
