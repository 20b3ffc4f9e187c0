-- SUMMARY: mpv's core as far as commands decide what it plays: the current entry, the playing entry, and `stop_play`.
import KitPlayerCore.Mpv.Client
import KitPlayerCore.Transition.Machine

/-!
# Playback

The core plays the current entry of its playlist until `stop_play` says to stop,
and then goes on with what has become the current entry. Commands run on the
core's thread between two of its own steps.
-/

namespace Mpv

open Transition

/-- `stop_play_reason`. -/
inductive StopPlay where
  | keepPlaying | atEndOfFile | nextEntry | currentEntry | stop | quit | error
  deriving DecidableEq, Repr

/-- The core. An entry is named by the `loadfile` that it comes from, so the
    entries that a redirect puts in its place have its name. -/
structure Playback (α : Type) where
  /-- `playlist->current`. -/
  current : Option α := none
  playing : Option α := none
  stopPlay : StopPlay := .stop

namespace Playback

variable {α : Type}

/-- `cmd_loadfile` without append: the playlist becomes the one new entry. -/
def loadfile (p : Playback α) (e : α) : Playback α :=
  { p with
    current := some e
    stopPlay := if p.stopPlay = .quit then .quit else .currentEntry }

/-- `cmd_stop`. -/
def stop (p : Playback α) : Playback α :=
  { p with current := none, stopPlay := if p.stopPlay = .quit then .quit else .stop }

/-- `play_current_file` up to the point where `playing` is set. -/
def startFile (p : Playback α) : Option (Playback α) :=
  if p.playing = none ∧ p.current ≠ none ∧ p.stopPlay ≠ .quit then
    some { p with playing := p.current, stopPlay := .keepPlaying }
  else none

/-- The core ends the playing entry by itself. -/
def finish (p : Playback α) (reason : StopPlay) : Option (Playback α) :=
  if p.playing ≠ none ∧ p.stopPlay = .keepPlaying ∧
      (reason = .atEndOfFile ∨ reason = .nextEntry ∨ reason = .error) then
    some { p with stopPlay := reason }
  else none

/-- The rest of `play_current_file`, and what `mp_play_files` does after it. The
    playlist has an entry after the current one if `next`. -/
def endFile (p : Playback α) (next : Bool) : Option (Playback α) :=
  if p.playing ≠ none ∧ p.stopPlay ≠ .keepPlaying then
    match p.stopPlay with
    | .quit => some { p with playing := none }
    | .currentEntry => some { p with playing := none, stopPlay := .stop }
    | _ => some { p with
        current := if next then p.current else none
        playing := none
        stopPlay := .stop }
  else none

/-! ## The reason -/

/-- The reason and the error of the `END_FILE` event, from `stop_play`,
    `error_playing`, and whether a frame was shown. -/
def endFileEvent (stopPlay : StopPlay) (errorPlaying : Int) (shownFrames : Bool) :
    EndFileReason × Int :=
  let nothingPlayed := !shownFrames && errorPlaying ≤ 0
  match stopPlay with
  | .error | .atEndOfFile =>
    let errorPlaying :=
      -- MPV_ERROR_NOTHING_TO_PLAY
      if errorPlaying = 0 ∧ nothingPlayed then -16 else errorPlaying
    if errorPlaying < 0 then (.error, errorPlaying)
    else if errorPlaying = 2 then (.redirect, 0)
    else (.eof, 0)
  | .nextEntry | .currentEntry | .stop => (.stop, 0)
  | .quit => (.quit, 0)
  -- not reached: play_current_file makes this PT_ERROR before
  | .keepPlaying => (.eof, 0)

end Playback

/-! ## Runs -/

/-- What can happen to the core: a command, or a step of its own. -/
inductive PlaybackLabel (α : Type) where
  | loadfile (e : α)
  | stop
  /-- A command that does not concern the playlist. -/
  | other
  | startFile
  | finish (reason : StopPlay)
  | endFile (next : Bool)

/-- The label is a command. -/
def PlaybackLabel.isCommand {α : Type} : PlaybackLabel α → Bool
  | .loadfile _ | .stop | .other => true
  | .startFile | .finish _ | .endFile _ => false

/-- The core, which starts idle. -/
def playback (α : Type) : Machine (Playback α) (PlaybackLabel α) where
  init p := p = {}
  step
    | p, .loadfile e => some (p.loadfile e)
    | p, .stop => some p.stop
    | p, .other => some p
    | p, .startFile => p.startFile
    | p, .finish reason => p.finish reason
    | p, .endFile next => p.endFile next

namespace Playback

variable {α : Type} {p p' : Playback α}

theorem startFile_cases (h : p.startFile = some p') :
    p.playing = none ∧ p.current ≠ none ∧ p.stopPlay ≠ .quit ∧
      p' = { p with playing := p.current, stopPlay := .keepPlaying } := by
  simp only [startFile, Option.ite_none_right_eq_some, Option.some.injEq] at h
  exact ⟨h.1.1, h.1.2.1, h.1.2.2, h.2.symm⟩

theorem finish_cases {reason : StopPlay} (h : p.finish reason = some p') :
    p.playing ≠ none ∧ p.stopPlay = .keepPlaying ∧ reason ≠ .quit ∧
      p' = { p with stopPlay := reason } := by
  simp only [finish, Option.ite_none_right_eq_some, Option.some.injEq] at h
  obtain ⟨⟨hp, hk, hr⟩, rfl⟩ := h
  refine ⟨hp, hk, ?_, rfl⟩
  rcases hr with rfl | rfl | rfl <;> decide

theorem endFile_cases {next : Bool} (h : p.endFile next = some p') :
    p.playing ≠ none ∧ p.stopPlay ≠ .keepPlaying ∧ p'.playing = none ∧
      (p'.current = p.current ∨ p'.current = none) ∧
      (p'.stopPlay = .stop ∨ (p.stopPlay = .quit ∧ p'.stopPlay = .quit)) := by
  simp only [endFile, Option.ite_none_right_eq_some] at h
  obtain ⟨⟨hp, hk⟩, h⟩ := h
  refine ⟨hp, hk, ?_⟩
  split at h <;> cases h
  · rename_i hq
    exact ⟨rfl, .inl rfl, .inr ⟨hq, hq⟩⟩
  · exact ⟨rfl, .inl rfl, .inl rfl⟩
  · refine ⟨rfl, ?_, .inl rfl⟩
    cases next <;> simp

/-- The core has nothing to play and is told to stop what it plays. -/
def Stopped (p : Playback α) : Prop := p.current = none ∧ p.stopPlay = .stop

theorem stopped_stop (h : p.stopPlay ≠ .quit) : p.stop.Stopped := by
  simp [Stopped, stop, h]

/-- Without a command the core does not start again. -/
theorem Stopped.step {l : PlaybackLabel α} (h : p.Stopped) (hl : l.isCommand = false)
    (hs : (playback α).step p l = some p') : p'.Stopped := by
  obtain ⟨hcur, hstop⟩ := h
  cases l with
  | loadfile | stop | other => cases hl
  | startFile => exact absurd hcur (startFile_cases hs).2.1
  | finish reason =>
    have hkeep := (finish_cases hs).2.1
    rw [hstop] at hkeep
    cases hkeep
  | endFile next =>
    obtain ⟨_, _, _, hcur', hstop'⟩ := endFile_cases hs
    refine ⟨?_, ?_⟩
    · rcases hcur' with h | h <;> simp [h, hcur]
    · rcases hstop' with h | ⟨h, _⟩
      · exact h
      · rw [hstop] at h
        cases h

theorem ne_quit_step {l : PlaybackLabel α} (h : p.stopPlay ≠ .quit)
    (hs : (playback α).step p l = some p') : p'.stopPlay ≠ .quit := by
  cases l with
  | loadfile e =>
    cases hs
    simp [loadfile, h]
  | stop =>
    cases hs
    simp [stop, h]
  | other =>
    cases hs
    exact h
  | startFile =>
    obtain ⟨_, _, _, rfl⟩ := startFile_cases hs
    simp
  | finish reason =>
    obtain ⟨_, _, hr, rfl⟩ := finish_cases hs
    exact hr
  | endFile next =>
    obtain ⟨_, _, _, _, h' | ⟨h', _⟩⟩ := endFile_cases hs
    · simp [h']
    · exact absurd h' h

/-- Whatever the core does in between, it is stopped when the last command is `stop`. -/
theorem stopped_of_last_command {cs ls : List (PlaybackLabel α)}
    (hls : ls.filter PlaybackLabel.isCommand = cs ++ [.stop]) (h : p.stopPlay ≠ .quit)
    (he : (playback α).exec p ls = some p') : p'.Stopped := by
  obtain ⟨before, rest, rfl, _, hrest⟩ := List.filter_eq_append_iff.mp hls
  obtain ⟨between, after, rfl, _, _, hafter⟩ := List.filter_eq_cons_iff.mp hrest
  rw [← List.append_assoc, Machine.exec_append] at he
  obtain ⟨q, hq, he⟩ := Option.bind_eq_some_iff.mp he
  have hquit : q.stopPlay ≠ .quit :=
    (playback α).exec_invariant (fun _ _ _ _ => ne_quit_step) h hq
  refine (playback α).exec_invariant (fun _ _ l hl hp => hp.step ?_) (stopped_stop hquit) he
  have := List.filter_eq_nil_iff.mp hafter l hl
  simpa using this

end Playback

end Mpv
