-- SUMMARY: When the reported status agrees with the reason why mpv ended the item.
import KitPlayerCore.Core.Status

/-!
# The status and the reason

`handleEvent:` does not look at the reason that `END_FILE` carries. It reports
the end of an item that was ready and the failure of one that was not, unless
`open` was called, and `stop` leaves no trace at all.
-/

namespace Core

open Mpv

/-- The statuses that are sent while an input is dealt with. -/
def Record.sentBy (s : Record) (i : Input) : List EventStatus :=
  (s.after i.body).sent.drop s.sent.length

/-- The input is a good reason for the status. -/
def Justifies (i : Input) : EventStatus → Prop
  | .readyToPlay => True
  | .atItemEnd => ∃ error, i = .event ⟨.endFile, .endFile .eof error⟩
  | .failed => ∃ error, i = .event ⟨.endFile, .endFile .error error⟩

/-- Every status is justified by the input that makes the object send it. -/
def Agrees (s : Record) : List Input → Prop
  | [] => True
  | i :: is => (∀ status ∈ s.sentBy i, Justifies i status) ∧ Agrees (s.after i.body) is

/-- If the item was ended, then `open` had been called, or the item was ready and
    reached its end, or it was not ready and ended with an error. -/
def Item.EndsWell (mpv : Option Handle) (url : Option NSString) (item : Item) : Prop :=
  ∀ c later, item.ending = some (c, later) →
    opened mpv url item.during = true ∨
    (readied mpv url item.during = true ∧ c.endFile.1 = .eof) ∨
    (readied mpv url item.during = false ∧ c.endFile.1 = .error)

theorem agrees_append (s : Record) (is is' : List Input) :
    Agrees s (is ++ is') ↔ Agrees s is ∧ Agrees (s.inputs is) is' := by
  induction is generalizing s with
  | nil => simp [Agrees, inputs_nil]
  | cons i is ih => simp [Agrees, ih, inputs_cons, and_assoc]

/-- What is sent by an input, when the whole is known. -/
theorem sentBy_of_sent {s : Record} {i : Input} {statuses : List EventStatus}
    (h : (s.after i.body).sent = s.sent ++ statuses) : s.sentBy i = statuses := by
  rw [Record.sentBy, h, List.drop_left]

theorem agrees_meanwhile (s : Record) (ms : List Meanwhile) :
    Agrees s (ms.map Meanwhile.input) := by
  induction ms generalizing s with
  | nil => trivial
  | cons m ms ih =>
    have hnone : s.sentBy m.input = [] := sentBy_of_sent (by simp [after_meanwhile])
    exact ⟨by simp [hnone], ih _⟩

/-- Only `ReadyToPlay` is sent while an item plays. -/
theorem agrees_played (s : Record) (l : List Played) : Agrees s (l.map Played.input) := by
  induction l generalizing s with
  | nil => trivial
  | cons p l ih =>
    refine ⟨?_, ih _⟩
    cases p with
    | meanwhile m =>
      have hnone : s.sentBy m.input = [] := sentBy_of_sent (by simp [after_meanwhile])
      simp [Played.input, hnone]
    | restart =>
      have hsent := after_playbackRestart s (e := ⟨.playbackRestart, .none⟩) rfl
      intro status hstatus
      simp only [Record.sentBy, Played.input, Input.body, hsent] at hstatus
      split at hstatus
      · simp at hstatus
      · simp at hstatus
        subst hstatus
        trivial

theorem agrees_startFile (s : Record) : Agrees s [.event ⟨.startFile, .none⟩] := by
  have hnone : s.sentBy (.event ⟨.startFile, .none⟩) = [] :=
    sentBy_of_sent (by rw [Input.body, after_startFile s rfl, List.append_nil])
  exact ⟨by simp [hnone], trivial⟩

/-- What is sent at the end of an item is justified exactly if the item ends well. -/
theorem justified_atEnd_iff (mpv : Option Handle) (url : Option NSString) (item : Item)
    (c : Closing) :
    (∀ status ∈ item.atEnd mpv url, Justifies c.input status) ↔
      opened mpv url item.during = true ∨
      (readied mpv url item.during = true ∧ c.endFile.1 = .eof) ∨
      (readied mpv url item.during = false ∧ c.endFile.1 = .error) := by
  unfold Item.atEnd
  cases opened mpv url item.during <;> cases readied mpv url item.during <;>
    simp [Justifies, Closing.input]

/-- The statuses of an item agree with the reason exactly if the item ends well. -/
theorem agrees_item_iff (s : Record) (item : Item) :
    Agrees s item.inputs ↔ item.EndsWell s.obj.mpv s.obj.url := by
  have h := Tracks.during s item.during
  have hduring : Agrees s (.event ⟨.startFile, .none⟩ :: item.during.map Played.input) :=
    ⟨(agrees_startFile s).1, agrees_played _ _⟩
  rw [Item.inputs, agrees_append, and_iff_right hduring, Item.ended, Item.EndsWell]
  cases item.ending with
  | none => simp [Agrees]
  | some e =>
    obtain ⟨c, later⟩ := e
    have hsent := sentBy_of_sent (h.sent_endFile c)
    simp only [Agrees, hsent, agrees_meanwhile, and_true, justified_atEnd_iff]
    constructor
    · rintro hc c' later' heq
      cases heq
      exact hc
    · intro hall
      exact hall c later rfl

theorem agrees_items_iff (s : Record) (items : List Item) :
    Agrees s (items.flatMap Item.inputs) ↔
      ∀ p ∈ started s.obj.url items, p.2.EndsWell s.obj.mpv p.1 := by
  induction items generalizing s with
  | nil => simp [Agrees, started]
  | cons item items ih =>
    rw [List.flatMap_cons, agrees_append, agrees_item_iff, ih, inputs_mpv, (sent_item s item).2,
      started, List.forall_mem_cons]

/-- Every `AtItemEnd` of a stream is sent for the reason EOF and every `Failed` for
    the reason ERROR, exactly if every item ends well. -/
theorem agrees_iff_endsWell (s : Record) (before : List Meanwhile) (items : List Item) :
    Agrees s (before.map Meanwhile.input ++ items.flatMap Item.inputs) ↔
      ∀ p ∈ started (before.foldl Meanwhile.url s.obj.url) items,
        p.2.EndsWell s.obj.mpv p.1 := by
  rw [agrees_append, agrees_items_iff, inputs_mpv, (inputs_meanwhile s before).2,
    and_iff_right (agrees_meanwhile s before)]

/-- An item that was ready is ended by `stop`, and the delegate receives `AtItemEnd`. -/
theorem not_agrees_after_stop :
    ¬ ∀ (s : Record) (items : List Item), s.obj.accepts = true →
      Agrees s (items.flatMap Item.inputs) := by
  intro h
  have hitem := h { obj := { mpv := some 1, url := some "a" } }
    [⟨[.restart, .meanwhile .stop], some (⟨.stop, 0, true⟩, [])⟩] rfl
  rw [agrees_items_iff] at hitem
  have hends := hitem _ List.mem_cons_self _ _ rfl
  revert hends
  decide

end Core
