-- SUMMARY: What a call of `open` whose `loadfile` is rejected changes for the item that keeps playing.
import KitPlayerCore.Core.Status
import KitPlayerCore.Mpv.Command

/-!
# Rejected commands

`open` sets `isManualStop` before mpv has seen the command, and only `START_FILE`
clears it. A command that mpv rejects is followed by no `START_FILE`.
-/

namespace Core

open Mpv Transition

/-! ## The rest of an item -/

/-- What happens while an item keeps playing: it is no `START_FILE`. -/
def Input.Continues : Input → Prop
  | .event e => e.eventId ≠ .startFile
  | _ => True

/-- As `Record.perform`, but mpv rejects commands. -/
def Record.performRejected : (op : Op) → Record → op.Res × Record
  -- MPV_ERROR_INVALID_PARAMETER
  | .call _ (.command _), s => ((-4 : Int), s)
  | op, s => Record.perform op s

/-- The queue runs the block of `open`, and mpv rejects its command. -/
def Record.afterRejected (s : Record) : Record :=
  (Block.loadfile.body.run Record.performRejected s).2

/-- `open` is called, and its block runs after `before`. What mpv plays is not changed by
    a command that is rejected, so the events of the item are the same without the call. -/
def Record.failedOpen (s : Record) (before after : List Input) : Record :=
  (((s.after Core.open).inputs before).afterRejected).inputs after

/-- Without `isManualStop`, something is reported before another call of `open` passes
    its tests. -/
def Reports (o : Object) : List Input → Prop
  | [] => False
  | .setUrl url :: is => Reports { o with url := url } is
  | .open :: is => o.accepts = false ∧ Reports o is
  | .stop :: is => Reports o is
  | .event e :: is =>
    e.eventId = .endFile ∨ (e.eventId = .playbackRestart ∧ o.isLoaded = false) ∨ Reports o is

/-! ## What each step does -/

theorem afterRejected_eq (s : Record) : s.afterRejected = s := rfl

/-- While `isManualStop` is set, nothing is sent, and it stays set. -/
theorem after_of_isManualStop {s : Record} (hs : s.obj.isManualStop = true) {i : Input}
    (hi : i.Continues) :
    (s.after i.body).sent = s.sent ∧ (s.after i.body).obj.isManualStop = true := by
  cases i with
  | setUrl url => exact ⟨rfl, hs⟩
  | «open» =>
    rw [Input.body, after_open]
    split
    · exact ⟨rfl, rfl⟩
    · exact ⟨rfl, hs⟩
  | stop =>
    rw [Input.body, after_stop]
    exact ⟨rfl, hs⟩
  | event e =>
    rw [Input.body]
    by_cases hr : e.eventId = .playbackRestart
    · rw [after_playbackRestart s hr, hs]
      exact ⟨rfl, hs⟩
    by_cases hf : e.eventId = .endFile
    · rw [after_endFile s hf, hs]
      exact ⟨rfl, hs⟩
    rw [after_aside s ⟨hi, hr, hf⟩]
    exact ⟨rfl, hs⟩

theorem inputs_of_isManualStop {s : Record} (hs : s.obj.isManualStop = true) {is : List Input}
    (his : ∀ i ∈ is, i.Continues) : (s.inputs is).sent = s.sent := by
  induction is generalizing s with
  | nil => rfl
  | cons i is ih =>
    obtain ⟨hi, his⟩ := List.forall_mem_cons.mp his
    obtain ⟨hsent, hmanual⟩ := after_of_isManualStop hs hi
    rw [inputs_cons, ih hmanual his, hsent]

/-- What was sent stays sent. -/
theorem length_sent_le_after (s : Record) (i : Input) :
    s.sent.length ≤ (s.after i.body).sent.length := by
  cases i with
  | setUrl url => exact le_rfl
  | «open» =>
    rw [Input.body, after_open]
    split <;> exact le_rfl
  | stop => rw [Input.body, after_stop]
  | event e =>
    rw [Input.body]
    by_cases hs : e.eventId = .startFile
    · rw [after_startFile s hs]
    by_cases hr : e.eventId = .playbackRestart
    · rw [after_playbackRestart s hr]
      split <;> simp
    by_cases hf : e.eventId = .endFile
    · rw [after_endFile s hf]
      split
      · exact le_rfl
      split <;> simp
    rw [after_aside s ⟨hs, hr, hf⟩]

theorem length_sent_le_inputs (s : Record) (is : List Input) :
    s.sent.length ≤ (s.inputs is).sent.length := by
  induction is generalizing s with
  | nil => exact le_rfl
  | cons i is ih => exact (length_sent_le_after s i).trans (ih _)

/-! ## The statuses of the item -/

/-- Once something was sent, it is not as if nothing had been. -/
theorem sent_inputs_ne {s : Record} {sent : List EventStatus} (status : EventStatus)
    (h : s.sent = sent ++ [status]) (is : List Input) : (s.inputs is).sent ≠ sent := by
  intro heq
  have hle := length_sent_le_inputs s is
  rw [heq, h, List.length_append, List.length_singleton] at hle
  omega

theorem sent_inputs_event_iff {s : Record} (hs : s.obj.isManualStop = false) {e : Event}
    (he : e.eventId ≠ .startFile) {is : List Input}
    (ih : (s.inputs is).sent = s.sent ↔ ¬ Reports s.obj is) :
    ((s.after (handleEvent e)).inputs is).sent = s.sent ↔
      ¬ Reports s.obj (.event e :: is) := by
  rw [Reports]
  by_cases hr : e.eventId = .playbackRestart
  · cases hl : s.obj.isLoaded with
    | true => simp [after_playbackRestart s hr, hl, hr, ih]
    | false =>
      have hne : ((s.after (handleEvent e)).inputs is).sent ≠ s.sent :=
        sent_inputs_ne .readyToPlay (by simp [after_playbackRestart s hr, hs, hl]) is
      simp [hne, hr]
  by_cases hf : e.eventId = .endFile
  · have hsent : ∃ status, (s.after (handleEvent e)).sent = s.sent ++ [status] := by
      cases hl : s.obj.isLoaded <;> simp [after_endFile s hf, hs, hl]
    obtain ⟨status, hsent⟩ := hsent
    simp [sent_inputs_ne status hsent is, hf]
  simp [after_aside s ⟨he, hr, hf⟩, hr, hf, ih]

/-- Without the call of `open`, nothing is sent exactly if nothing is to be reported. -/
theorem sent_inputs_iff {s : Record} (hs : s.obj.isManualStop = false) {is : List Input}
    (his : ∀ i ∈ is, i.Continues) : (s.inputs is).sent = s.sent ↔ ¬ Reports s.obj is := by
  induction is generalizing s with
  | nil => simp [Record.inputs, Reports]
  | cons i is ih =>
    obtain ⟨hi, htail⟩ := List.forall_mem_cons.mp his
    rw [inputs_cons]
    cases i with
    | setUrl url => exact ih (s := s.after (Core.setUrl url)) hs htail
    | stop =>
      rw [Input.body, after_stop]
      exact ih hs htail
    | «open» =>
      rw [Input.body, after_open, Reports]
      cases ha : s.obj.accepts with
      | true =>
        have hsent := inputs_of_isManualStop
          (s := { s with obj := { s.obj with isManualStop := true } }) rfl htail
        simpa using hsent
      | false => simpa using ih hs htail
    | event e => exact sent_inputs_event_iff hs hi (ih hs htail)

/-- Where `open` passes its tests and mpv rejects its command, the item that keeps
    playing is reported as without the call: exactly if `isManualStop` was set before, or
    nothing would be reported anyway. -/
theorem sent_failedOpen_iff {s : Record} (ha : s.obj.accepts = true) {before after : List Input}
    (hcontinues : ∀ i ∈ before ++ after, i.Continues) :
    (s.failedOpen before after).sent = (s.inputs (before ++ after)).sent ↔
      s.obj.isManualStop = true ∨ ¬ Reports s.obj (before ++ after) := by
  have hopen : s.after Core.open = { s with obj := { s.obj with isManualStop := true } } := by
    rw [after_open, if_pos ha]
  have hfailed : (s.failedOpen before after).sent = s.sent := by
    rw [Record.failedOpen, afterRejected_eq, ← inputs_append, hopen]
    exact inputs_of_isManualStop rfl hcontinues
  rw [hfailed, eq_comm]
  cases hm : s.obj.isManualStop with
  | true => simp [inputs_of_isManualStop hm hcontinues]
  | false => simp [sent_inputs_iff hm hcontinues]

/-- An item that plays and was reported ready. -/
def playingItem : Record where
  obj := { mpv := some 1, url := some "a", isLoaded := true }
  sent := [.readyToPlay]

/-- The end of the item. -/
def itemEnd : Input := .event ⟨.endFile, .endFile .eof 0⟩

/-- A second call of `open` is accepted before the item ends. -/
theorem sent_failedOpen_of_open :
    (playingItem.failedOpen [.setUrl none] [.setUrl (some "b"), .open, itemEnd]).sent =
      (playingItem.inputs [.setUrl none, .setUrl (some "b"), .open, itemEnd]).sent := by
  refine (sent_failedOpen_iff rfl ?_).mpr (.inr ?_)
  · simp [Input.Continues, itemEnd]
  · simp [Reports, itemEnd, Object.accepts, playingItem]

/-- The URL is set to `nil` before the block runs, and the end of the item is not reported. -/
theorem not_sent_failedOpen :
    ¬ ∀ (s : Record) (before after : List Input), s.obj.accepts = true →
      loadfileDef.Rejects
        (Block.loadfile.command ((s.after Core.open).inputs before).obj.url) →
      (∀ i ∈ before ++ after, i.Continues) →
      (s.failedOpen before after).sent = (s.inputs (before ++ after)).sent := by
  intro h
  have hsame := h playingItem [.setUrl none] [itemEnd] rfl ⟨rfl, rfl⟩
    (by simp [Input.Continues, itemEnd])
  rw [sent_failedOpen_iff rfl (by simp [Input.Continues, itemEnd])] at hsame
  simp [playingItem, itemEnd, Reports] at hsame

end Core
