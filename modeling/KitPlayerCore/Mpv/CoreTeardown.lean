-- SUMMARY: That the core is freed once, by one call, after its last handle and its thread, and that all calls of `mpv_destroy` can return.
import KitPlayerCore.Mpv.CoreLifetime
import Mathlib.Data.List.Nodup

/-!
# The end of the core

`have_terminator` chooses one call of `mp_destroy_client`. The core thread cannot end before this
call has set `terminate_core_thread`, so the call can still use the dispatch queue until then.
-/

namespace CoreLifetime

open Transition

variable {s s' : State} {id : Nat}

/-! ## Names -/

theorem isAlnum_of_isDigit {c : Char} (h : c.isDigit = true) : isAlnum c = true := by
  simp only [Char.isDigit, Bool.and_eq_true, decide_eq_true_eq] at h
  exact decide_eq_true (.inr (.inr h))

/-- A name that events and commands can be sent to. -/
structure WellNamed (name : Name) : Prop where
  nonempty : name ≠ []
  /-- It fits into `nname` with its NUL. -/
  length : name.length < maxClientName
  chars : ∀ c ∈ name, isAlnum c = true ∨ c = '_'

theorem length_numbered {name : Name} {n : Nat} (hn : n < 1000) :
    (numbered name n).length < maxClientName := by
  have htake : (name.take (maxClientName - 3 - 1)).length ≤ 60 := List.length_take_le _ _
  have hdigits : (if 1 < n then Nat.toDigits 10 n else []).length ≤ 3 := by
    split
    · exact (Nat.length_toDigits_le_iff (by decide) (by decide)).mpr hn
    · exact Nat.zero_le _
  rw [numbered, List.length_append, List.length_map]
  simp only [maxClientName] at htake ⊢
  omega

theorem chars_numbered {name : Name} {n : Nat} {c : Char} (hc : c ∈ numbered name n) :
    isAlnum c = true ∨ c = '_' := by
  obtain hc | hc := List.mem_append.mp hc
  · obtain ⟨a, -, rfl⟩ := List.mem_map.mp hc
    split
    · rename_i ha
      exact .inl ha
    · exact .inr rfl
  · split at hc
    · exact .inl (isAlnum_of_isDigit (Nat.isDigit_of_mem_toDigits (by decide) (by decide) hc))
    · cases hc

/-- A new name is well formed, and not used yet. -/
theorem findName_spec {used : List Name} {name nname : Name} (h : findName used name = some nname) :
    WellNamed nname ∧ nname ∉ used := by
  obtain ⟨hfind, hne⟩ := Option.filter_eq_some_iff.mp h
  have hused := List.find?_some hfind
  obtain ⟨n, hn, rfl⟩ := List.mem_map.mp (List.mem_of_find?_eq_some hfind)
  have hlt : n < 1000 := by
    have hrange := List.mem_range'_1.mp hn
    omega
  exact ⟨⟨of_decide_eq_true hne, length_numbered hlt, fun c hc => chars_numbered hc⟩,
    of_decide_eq_true hused⟩

/-! ## What is expected -/

/-- The handle is in the list of clients. -/
def HandlePc.Listed : HandlePc → Prop
  | .live | .quitting | .settling _ | .removing _ => True
  | _ => False

/-- The handle may still be sent replies. -/
def HandlePc.Replied : HandlePc → Prop
  | .live | .quitting | .settling _ => True
  | _ => False

/-- The call is the one that frees the core. -/
def HandlePc.Terminates : HandlePc → Prop
  | .locking | .asking | .signalling | .joining | .destroying | .terminated => True
  | _ => False

/-- There is no thread in a function that takes the handle. -/
def HandlePc.Over : HandlePc → Prop
  | .absent | .terminated | .gone => True
  | _ => False

/-- The core is freed once, when nobody can use it any more. -/
structure FreedOnce (s : State) : Prop where
  once : s.freed ≤ 1
  unused : s.freed = 1 → s.core = .ended ∧ s.clients = [] ∧ s.outstandingAsync = 0 ∧
    ∀ id, (s.handle id).Over
  /-- One call at most is to free it. -/
  unique : ∀ i j, (s.handle i).Terminates → (s.handle j).Terminates → i = j
  /-- A core without handles is freed, or there is a call that is to do so. -/
  owned : s.clients = [] → ∃ id, (s.handle id).Terminates
  names : (s.clients.map Client.name).Nodup ∧ ∀ c ∈ s.clients, WellNamed c.name
  /-- No handle is freed that is still to be sent a reply, or for which the core reads a property. -/
  replied : ∀ id, s.reservedEvents id ≠ 0 ∨ s.reading = some id → id ∈ s.clients.map Client.id
  asserts : s.failed = false

/-! ## Handles -/

structure Handles (s : State) : Prop where
  listed : ∀ id, id ∈ s.clients.map Client.id ↔ (s.handle id).Listed
  nodup : (s.clients.map Client.id).Nodup
  fresh : ∀ id, s.created ≤ id → s.handle id = .absent
  terminator : ∀ id, (s.handle id).Terminates ↔ s.haveTerminator = some id
  owned : s.clients = [] → s.haveTerminator ≠ none
  names : (s.clients.map Client.name).Nodup ∧ ∀ c ∈ s.clients, WellNamed c.name

/-- How far the call has come that is to free the core. -/
def State.stage (s : State) : HandlePc := s.haveTerminator.elim .absent s.handle

/-- `stop_play` is set. -/
def HandlePc.HasQuit : HandlePc → Prop
  | .asking | .signalling | .joining | .destroying | .terminated => True
  | _ => False

/-- `terminate_core_thread` is set. -/
def HandlePc.HasSignalled : HandlePc → Prop
  | .joining | .destroying | .terminated => True
  | _ => False

/-- The core thread has ended. -/
def HandlePc.HasJoined : HandlePc → Prop
  | .destroying | .terminated => True
  | _ => False

structure Threads (s : State) : Prop where
  quit : s.stage.HasQuit → s.quit = true
  signalled : s.terminateCoreThread = true ↔ s.stage.HasSignalled
  joined : s.stage.HasJoined → s.core = .ended
  freed : s.freed = if s.stage = .terminated then 1 else 0
  playing : s.shuttingDown = true → s.core ≠ .playing
  shuttingDown : s.core = .waiting ∨ s.core = .ended → s.shuttingDown = true
  ended : s.core = .ended → s.mustWait = false
  /-- No wakeup of the core thread is lost. -/
  awake : s.core = .waiting → s.interrupted = false → s.mustWait = true
  asserts : s.failed = false

/-- A call goes on, or begins, without a change of the list. -/
theorem Handles.goto (h : Handles s) {pc : HandlePc} (hid : s.handle id ≠ .absent)
    (hlisted : pc.Listed ↔ (s.handle id).Listed)
    (hterminates : pc.Terminates ↔ (s.handle id).Terminates) : Handles (s.goto id pc) := by
  have hsame (P : HandlePc → Prop) (hpc : P pc ↔ P (s.handle id)) (i : Nat) :
      P ((s.goto id pc).handle i) ↔ P (s.handle i) := by
    by_cases hi : i = id
    · subst hi
      simpa [State.goto] using hpc
    · simp [State.goto, hi]
  refine ⟨fun i => (h.listed i).trans (hsame _ hlisted i).symm, h.nodup, fun i hi => ?_,
    fun i => (hsame _ hterminates i).trans (h.terminator i), h.owned, h.names⟩
  have habsent := h.fresh i hi
  have hne : i ≠ id := by
    rintro rfl
    exact hid habsent
  simpa [State.goto, hne] using habsent

theorem Handles.newClient (h : Handles s) (name : Option Name) : Handles (s.newClient name) := by
  unfold State.newClient
  split
  · exact h
  · rename_i nname hname
    split
    · exact h
    · obtain ⟨hwell, hnew⟩ := findName_spec hname
      have habsent : s.handle s.created = .absent := h.fresh _ (Nat.le_refl _)
      have hunlisted : s.created ∉ s.clients.map Client.id := by
        rw [h.listed, habsent]
        exact id
      refine ⟨fun i => ?_, ?_, fun i hi => ?_, fun i => ?_, by simp [State.goto], ?_, ?_⟩
      · by_cases hi : i = s.created
        · subst hi
          simp [State.goto, HandlePc.Listed]
        · have hlisted := h.listed i
          simp only [List.mem_map] at hlisted
          simpa [State.goto, hi, Ne.symm hi] using hlisted
      · simp only [State.goto, List.map_append, List.map_singleton]
        exact h.nodup.append (List.nodup_singleton _) (by simpa using hunlisted)
      · have hi : s.created + 1 ≤ i := hi
        have hne : i ≠ s.created := by omega
        simpa [State.goto, hne] using h.fresh i (by omega)
      · by_cases hi : i = s.created
        · subst hi
          have hnot : s.haveTerminator ≠ some s.created := by
            rw [Ne, ← h.terminator, habsent]
            exact fun hterminates => hterminates
          simpa [State.goto, HandlePc.Terminates] using hnot
        · simpa [State.goto, hi] using h.terminator i
      · simp only [State.goto, List.map_append, List.map_singleton]
        exact h.names.1.append (List.nodup_singleton _) (by simpa using hnew)
      · intro c hc
        obtain hc | hc := List.mem_append.mp hc
        · exact h.names.2 c hc
        · rw [List.mem_singleton.mp hc]
          exact hwell

theorem Handles.setWeak (h : Handles s) (id : Nat) : Handles (s.setWeak id) := by
  have hmap {β : Type} (f : Client → β) (hf : ∀ c : Client, f { c with weak := true } = f c) :
      (s.setWeak id).clients.map f = s.clients.map f := by
    simp only [State.setWeak, List.map_map]
    refine List.map_congr_left fun c _ => ?_
    simp only [Function.comp]
    split
    · exact hf c
    · rfl
  refine ⟨fun i => ?_, ?_, h.fresh, h.terminator, fun hnil => h.owned ?_, ?_, fun c hc => ?_⟩
  · rw [hmap Client.id fun _ => rfl]
    exact h.listed i
  · rw [hmap Client.id fun _ => rfl]
    exact h.nodup
  · exact List.map_eq_nil_iff.mp hnil
  · rw [hmap Client.name fun _ => rfl]
    exact h.names.1
  · obtain ⟨d, hd, rfl⟩ := List.mem_map.mp hc
    split
    · exact h.names.2 d hd
    · exact h.names.2 d hd

theorem map_id_eraseP (clients : List Client) (id : Nat) :
    (clients.eraseP (·.id = id)).map Client.id = (clients.map Client.id).erase id := by
  rw [List.erase_eq_eraseP, List.eraseP_map]
  congr 2
  funext c
  simp [Function.comp, Bool.beq_eq_decide_eq, eq_comm]

theorem Handles.removeClient (h : Handles s) {terminate : Bool}
    (hid : s.handle id = .removing terminate) : Handles (s.removeClient id terminate) := by
  have hlive : ¬ (s.handle id).Terminates := by
    rw [hid]
    exact fun hterminates => hterminates
  have hnot : s.haveTerminator ≠ some id := fun habs => hlive ((h.terminator id).mpr habs)
  refine ⟨fun i => ?_, ?_, fun i hi => ?_, fun i => ?_, fun hnil => ?_, ?_, fun c hc => ?_⟩
  · simp only [State.removeClient, State.goto, map_id_eraseP]
    rw [h.nodup.mem_erase_iff]
    by_cases hi : i = id
    · subst hi
      refine iff_of_false (fun hmem => hmem.1 rfl) ?_
      rw [Function.update_self]
      split <;> exact fun hlisted => hlisted
    · simpa [hi] using h.listed i
  · simp only [State.removeClient, State.goto, map_id_eraseP]
    exact h.nodup.erase id
  · have habsent := h.fresh i hi
    have hne : i ≠ id := by
      rintro rfl
      rw [hid] at habsent
      cases habsent
    simpa [State.removeClient, State.goto, hne] using habsent
  · simp only [State.removeClient, State.goto]
    generalize hterminate : ((terminate || !(s.clients.eraseP (·.id = id)).any (!·.weak)) &&
      s.haveTerminator.isNone) = now
    cases now with
    | true =>
      have hnone : s.haveTerminator = none := by
        simp only [Bool.and_eq_true] at hterminate
        exact Option.isNone_iff_eq_none.mp hterminate.2
      by_cases hi : i = id
      · subst hi
        simp [HandlePc.Terminates]
      · have hother := h.terminator i
        rw [hnone] at hother
        simpa [hi, Ne.symm hi] using hother
    | false =>
      by_cases hi : i = id
      · subst hi
        simpa [HandlePc.Terminates] using hnot
      · simpa [hi] using h.terminator i
  · simp only [State.removeClient, State.goto] at hnil ⊢
    rw [hnil]
    cases hterminator : s.haveTerminator with
    | none => simp
    | some i => simp
  · exact h.names.1.sublist (List.eraseP_sublist.map _)
  · exact h.names.2 c (List.eraseP_sublist.subset hc)

/-! ## Threads -/

theorem Handles.terminates_stage (h : Handles s) (hid : (s.handle id).Terminates) :
    s.stage = s.handle id := by
  rw [State.stage, (h.terminator id).mp hid]
  rfl

/-- A call that is not to free the core goes on. -/
theorem Threads.goto_of_not (h : Threads s) {pc : HandlePc} (hid : s.haveTerminator ≠ some id) :
    Threads (s.goto id pc) := by
  have hstage : (s.goto id pc).stage = s.stage := by
    rw [State.stage, State.stage]
    cases hterminator : s.haveTerminator with
    | none => simp [State.goto, hterminator]
    | some i =>
      have hne : i ≠ id := by
        rintro rfl
        exact hid hterminator
      simp [State.goto, hterminator, hne]
  exact ⟨hstage ▸ h.quit, hstage ▸ h.signalled, hstage ▸ h.joined, hstage ▸ h.freed, h.playing,
    h.shuttingDown, h.ended, h.awake, h.asserts⟩

theorem Handles.stage_goto (h : Handles s) {pc : HandlePc} (hid : (s.handle id).Terminates) :
    (s.goto id pc).stage = pc := by
  have hterminator : (s.goto id pc).haveTerminator = some id := (h.terminator id).mp hid
  rw [State.stage, hterminator]
  exact Function.update_self _ _ _

theorem Threads.newClient (h : Threads s) (hhandles : Handles s) (name : Option Name) :
    Threads (s.newClient name) := by
  unfold State.newClient
  split
  · exact h
  · split
    · exact h
    · rename_i nname _ hshutting
      have hnot : s.haveTerminator ≠ some s.created := by
        rw [Ne, ← hhandles.terminator, hhandles.fresh _ (Nat.le_refl _)]
        exact fun hterminates => hterminates
      have hfields : Threads { s with
          clients := s.clients ++ [{ id := s.created, name := nname : Client }]
          created := s.created + 1 } :=
        ⟨h.quit, h.signalled, h.joined, h.freed, h.playing, h.shuttingDown,
          fun hended => absurd (h.shuttingDown (.inr hended)) hshutting,
          fun hwaiting => absurd (h.shuttingDown (.inl hwaiting)) hshutting, h.asserts⟩
      exact hfields.goto_of_not hnot

theorem Threads.setWeak (h : Threads s) (id : Nat) : Threads (s.setWeak id) := by
  have hwait : (s.setWeak id).mustWait = s.mustWait := by
    rw [State.mustWait, State.setWeak, List.isEmpty_map]
    rfl
  exact ⟨h.quit, h.signalled, h.joined, h.freed, h.playing, h.shuttingDown, hwait ▸ h.ended,
    hwait ▸ h.awake, h.asserts⟩

theorem Threads.removeClient (h : Threads s) (hhandles : Handles s) {terminate : Bool}
    (hid : s.handle id = .removing terminate) : Threads (s.removeClient id terminate) := by
  have hlive : ¬ (s.handle id).Terminates := by
    rw [hid]
    exact fun hterminates => hterminates
  have hnot : s.haveTerminator ≠ some id := fun habs => hlive ((hhandles.terminator id).mpr habs)
  have hlisted : id ∈ s.clients.map Client.id := by
    rw [hhandles.listed, hid]
    trivial
  obtain ⟨c, hc, hcid⟩ := List.mem_map.mp hlisted
  have hany : s.clients.any (·.id = id) = true :=
    List.any_eq_true.mpr ⟨c, hc, decide_eq_true hcid⟩
  -- the core thread cannot have ended while there was this client
  have hcore : s.core ≠ .ended := by
    intro hended
    have hwait := h.ended hended
    simp only [State.mustWait, Bool.or_eq_false_iff, Bool.not_eq_false', List.isEmpty_iff] at hwait
    rw [hwait.1.1] at hc
    cases hc
  unfold State.removeClient
  dsimp only
  generalize hterminate : ((terminate || !(s.clients.eraseP (·.id = id)).any (!·.weak)) &&
    s.haveTerminator.isNone) = now
  cases now with
  | true =>
    have hnone : s.haveTerminator = none := by
      simp only [Bool.and_eq_true] at hterminate
      exact Option.isNone_iff_eq_none.mp hterminate.2
    have hstage : s.stage = .absent := by
      rw [State.stage, hnone]
      rfl
    have hsignalled : s.terminateCoreThread ≠ true := by
      rw [Ne, h.signalled, hstage]
      exact fun hsignalled => hsignalled
    have hfreed := h.freed
    simp only [hstage] at hfreed
    refine ⟨?_, ?_, ?_, ?_, h.playing, h.shuttingDown, fun hended => absurd hended hcore, nofun, ?_⟩
    · simp [State.goto, State.stage, HandlePc.HasQuit]
    · simpa [State.goto, State.stage, HandlePc.HasSignalled] using hsignalled
    · simp [State.goto, State.stage, HandlePc.HasJoined]
    · simpa [State.goto, State.stage] using hfreed
    · simp [State.goto, h.asserts, hany]
  | false =>
    have hfields : Threads { s with
        clients := s.clients.eraseP (·.id = id)
        interrupted := true
        failed := s.failed || !s.clients.any (·.id = id) } :=
      ⟨h.quit, h.signalled, h.joined, h.freed, h.playing, h.shuttingDown,
        fun hended => absurd hended hcore, nofun, by simp [h.asserts, hany]⟩
    exact hfields.goto_of_not hnot

/-- The core is freed by a call that has come as far as `pc`. -/
theorem Threads.of_stage {p : HandlePc} (hstage : s.stage = p)
    (hquit : p.HasQuit → s.quit = true)
    (hsignalled : s.terminateCoreThread = true ↔ p.HasSignalled)
    (hjoined : p.HasJoined → s.core = .ended)
    (hfreed : s.freed = if p = .terminated then 1 else 0)
    (hplaying : s.shuttingDown = true → s.core ≠ .playing)
    (hshutting : s.core = .waiting ∨ s.core = .ended → s.shuttingDown = true)
    (hended : s.core = .ended → s.mustWait = false)
    (hawake : s.core = .waiting → s.interrupted = false → s.mustWait = true)
    (hasserts : s.failed = false) : Threads s := by
  subst hstage
  exact ⟨hquit, hsignalled, hjoined, hfreed, hplaying, hshutting, hended, hawake, hasserts⟩

theorem Threads.runQuit (h : Threads s) : Threads s.runQuit :=
  ⟨fun _ => rfl, h.signalled, h.joined, h.freed, h.playing, h.shuttingDown, h.ended, nofun,
    h.asserts⟩

/-- What a step of `mp_destroy_client` does. -/
inductive State.Destroys (s : State) (id : Nat) : State → Prop where
  | quit (hid : s.handle id = .quitting) (hserves : s.serves = true) :
      s.Destroys id (s.runQuit.goto id (.settling true))
  /-- Before `mpv_initialize` no command is run. -/
  | skip (hid : s.handle id = .quitting) : s.Destroys id (s.goto id (.settling true))
  | settle {terminate : Bool} (hid : s.handle id = .settling terminate)
      (hsettled : s.settled id = true) : s.Destroys id (s.goto id (.removing terminate))
  | remove {terminate : Bool} (hid : s.handle id = .removing terminate) :
      s.Destroys id (s.removeClient id terminate)
  | lock (hid : s.handle id = .locking) : s.Destroys id ({ s with quit := true }.goto id .asking)
  | ask (hid : s.handle id = .asking) : s.Destroys id (s.goto id .signalling)
  | signal (hid : s.handle id = .signalling) :
      s.Destroys id ({ s with terminateCoreThread := true, interrupted := true }.goto id .joining)
  | join (hid : s.handle id = .joining) (hended : s.core = .ended) :
      s.Destroys id (s.goto id .destroying)
  | free (hid : s.handle id = .destroying) : s.Destroys id (s.destroyCore.goto id .terminated)

theorem destroys_of_destroyer (hs : s.destroyer id = some s') : s.Destroys id s' := by
  unfold State.destroyer at hs
  cases hid : s.handle id with
  | absent | live | terminated | gone =>
    rw [hid] at hs
    cases hs
  | quitting =>
    rw [hid] at hs
    dsimp only at hs
    split at hs
    · simp only [Option.ite_none_right_eq_some, Option.some.injEq] at hs
      exact hs.2 ▸ .quit hid hs.1
    · cases hs
      exact .skip hid
  | settling terminate =>
    rw [hid] at hs
    simp only [Option.ite_none_right_eq_some, Option.some.injEq] at hs
    exact hs.2 ▸ .settle hid hs.1
  | removing terminate =>
    rw [hid] at hs
    cases hs
    exact .remove hid
  | locking =>
    rw [hid] at hs
    simp only [Option.ite_none_right_eq_some, Option.some.injEq] at hs
    exact hs.2 ▸ .lock hid
  | asking =>
    rw [hid] at hs
    simp only [Option.ite_none_right_eq_some, Option.some.injEq] at hs
    exact hs.2 ▸ .ask hid
  | signalling =>
    rw [hid] at hs
    cases hs
    exact .signal hid
  | joining =>
    rw [hid] at hs
    simp only [Option.ite_none_right_eq_some, Option.some.injEq] at hs
    exact hs.2 ▸ .join hid hs.1
  | destroying =>
    rw [hid] at hs
    cases hs
    exact .free hid

theorem Threads.destroyer (h : Threads s) (hhandles : Handles s) (hs : s.destroyer id = some s') :
    Threads s' := by
  have hnot {p : HandlePc} (hid : s.handle id = p) (hp : ¬ p.Terminates) :
      s.haveTerminator ≠ some id := fun habs =>
    hp (hid ▸ (hhandles.terminator id).mpr habs)
  -- the call that is to free the core is the one whose stage counts
  have hcall {p : HandlePc} (hid : s.handle id = p) (hp : p.Terminates) :
      (s.handle id).Terminates ∧ s.haveTerminator = some id ∧ s.stage = p := by
    subst hid
    exact ⟨hp, (hhandles.terminator id).mp hp, hhandles.terminates_stage hp⟩
  have hsignalled := h.signalled
  have hfreed := h.freed
  cases destroys_of_destroyer hs with
  | quit hid => exact h.runQuit.goto_of_not (hnot hid fun habs => habs)
  | skip hid => exact h.goto_of_not (hnot hid fun habs => habs)
  | settle hid => exact h.goto_of_not (hnot hid fun habs => habs)
  | remove hid => exact h.removeClient hhandles hid
  | lock hid =>
    obtain ⟨-, hterminator, hstage⟩ := hcall hid trivial
    rw [hstage] at hsignalled hfreed
    exact .of_stage (p := .asking) (by simp [State.stage, State.goto, hterminator])
      (fun _ => rfl) hsignalled (fun hjoined => hjoined.elim) hfreed h.playing h.shuttingDown
      h.ended h.awake h.asserts
  | ask hid =>
    obtain ⟨hterminates, -, hstage⟩ := hcall hid trivial
    rw [hstage] at hsignalled hfreed
    exact .of_stage (p := .signalling) (hhandles.stage_goto hterminates)
      (fun _ => h.quit (hstage ▸ trivial)) hsignalled (fun hjoined => hjoined.elim) hfreed
      h.playing h.shuttingDown h.ended h.awake h.asserts
  | signal hid =>
    obtain ⟨-, hterminator, hstage⟩ := hcall hid trivial
    rw [hstage] at hsignalled hfreed
    have hcore : s.core ≠ .ended := by
      intro hended
      have hwait := h.ended hended
      simp only [State.mustWait, Bool.or_eq_false_iff, Bool.not_eq_false'] at hwait
      exact hsignalled.mp hwait.2
    exact .of_stage (p := .joining) (by simp [State.stage, State.goto, hterminator])
      (fun _ => h.quit (hstage ▸ trivial)) (iff_of_true rfl trivial)
      (fun hjoined => hjoined.elim) hfreed h.playing h.shuttingDown
      (fun hended => absurd hended hcore) nofun h.asserts
  | join hid hended =>
    obtain ⟨hterminates, -, hstage⟩ := hcall hid trivial
    rw [hstage] at hsignalled hfreed
    exact .of_stage (p := .destroying) (hhandles.stage_goto hterminates)
      (fun _ => h.quit (hstage ▸ trivial)) hsignalled (fun _ => hended) hfreed h.playing
      h.shuttingDown h.ended h.awake h.asserts
  | free hid =>
    obtain ⟨-, hterminator, hstage⟩ := hcall hid trivial
    rw [hstage] at hsignalled hfreed
    have hended : s.core = .ended := h.joined (hstage ▸ trivial)
    have hwait := h.ended hended
    have hempty : s.clients.isEmpty = true := by
      simp only [State.mustWait, Bool.or_eq_false_iff, Bool.not_eq_false'] at hwait
      exact hwait.1.1
    refine .of_stage (p := .terminated)
      (by simp [State.stage, State.goto, State.destroyCore, hterminator])
      (fun _ => h.quit (hstage ▸ trivial)) hsignalled (fun _ => hended) ?_ (fun _ => ?_)
      (fun _ => rfl) (fun _ => hwait) (fun hwaiting => ?_) ?_
    · have hfreed : s.freed = 0 := hfreed
      simp [State.goto, State.destroyCore, hfreed]
    · simp [State.goto, State.destroyCore, hended]
    · have hwaiting : s.core = .waiting := hwaiting
      rw [hended] at hwaiting
      cases hwaiting
    · simp [State.goto, State.destroyCore, h.asserts, hwait, hempty]

/-- A step that is not taken on behalf of a handle. -/
structure Frame (s s' : State) : Prop where
  clients : s'.clients = s.clients
  haveTerminator : s'.haveTerminator = s.haveTerminator
  handle : s'.handle = s.handle
  created : s'.created = s.created

theorem Handles.frame (h : Handles s) (hf : Frame s s') : Handles s' := by
  refine ⟨?_, ?_, ?_, ?_, ?_, ?_⟩
  · rw [hf.clients, hf.handle]
    exact h.listed
  · rw [hf.clients]
    exact h.nodup
  · rw [hf.created, hf.handle]
    exact h.fresh
  · rw [hf.handle, hf.haveTerminator]
    exact h.terminator
  · rw [hf.clients, hf.haveTerminator]
    exact h.owned
  · rw [hf.clients]
    exact h.names

/-- The call goes on, whatever it does besides. -/
theorem Handles.goesOn (h : Handles s) {t : State} (hf : Frame s t) {p pc : HandlePc}
    (hid : s.handle id = p) (hp : p ≠ .absent) (hlisted : pc.Listed ↔ p.Listed)
    (hterminates : pc.Terminates ↔ p.Terminates) : Handles (t.goto id pc) := by
  have hsame : t.handle id = p := hf.handle ▸ hid
  exact (h.frame hf).goto (hsame ▸ hp) (hsame ▸ hlisted) (hsame ▸ hterminates)

theorem Handles.destroyer (h : Handles s) (hs : s.destroyer id = some s') : Handles s' := by
  cases destroys_of_destroyer hs with
  | remove hid => exact h.removeClient hid
  | quit hid | skip hid | settle hid | lock hid | ask hid | signal hid | join hid | free hid =>
    refine h.goesOn ?_ hid ?_ ?_ ?_
    · exact ⟨rfl, rfl, rfl, rfl⟩
    · rintro ⟨⟩
    · exact .rfl
    · exact .rfl

theorem Handles.step {l : Label} (h : Handles s) (hs : CoreLifetime.step s l = some s') :
    Handles s' := by
  cases l with
  | create owner name =>
    simp only [CoreLifetime.step, Option.ite_none_right_eq_some, Option.some.injEq] at hs
    exact hs.2 ▸ h.newClient name
  | setWeak id =>
    simp only [CoreLifetime.step, Option.ite_none_right_eq_some, Option.some.injEq] at hs
    exact hs.2 ▸ h.setWeak id
  | destroy id terminate =>
    simp only [CoreLifetime.step, Option.ite_none_right_eq_some, Option.some.injEq] at hs
    obtain ⟨hlive, rfl⟩ := hs
    cases terminate with
    | false => exact h.goto (by rw [hlive]; nofun) (by rw [hlive]; rfl) (by rw [hlive]; rfl)
    | true => exact h.goto (by rw [hlive]; nofun) (by rw [hlive]; rfl) (by rw [hlive]; rfl)
  | destroyer id => exact h.destroyer hs
  | mpvInitialize id =>
    simp only [CoreLifetime.step, Option.ite_none_right_eq_some, Option.some.injEq] at hs
    exact hs.2 ▸ h.frame ⟨rfl, rfl, rfl, rfl⟩
  | quit =>
    simp only [CoreLifetime.step, Option.ite_none_right_eq_some, Option.some.injEq] at hs
    exact hs.2 ▸ h.frame ⟨rfl, rfl, rfl, rfl⟩
  | request id =>
    simp only [CoreLifetime.step, Option.ite_none_right_eq_some, Option.some.injEq] at hs
    exact hs.2 ▸ h.frame ⟨rfl, rfl, rfl, rfl⟩
  | reply id =>
    simp only [CoreLifetime.step, Option.ite_none_right_eq_some, Option.some.injEq] at hs
    exact hs.2 ▸ h.frame ⟨rfl, rfl, rfl, rfl⟩
  | readProperty id =>
    simp only [CoreLifetime.step, Option.ite_none_right_eq_some, Option.some.injEq] at hs
    exact hs.2 ▸ h.frame ⟨rfl, rfl, rfl, rfl⟩
  | propertyRead =>
    simp only [CoreLifetime.step] at hs
    split at hs <;> cases hs
    exact h.frame ⟨rfl, rfl, rfl, rfl⟩
  | startAsync =>
    simp only [CoreLifetime.step, Option.ite_none_right_eq_some, Option.some.injEq] at hs
    exact hs.2 ▸ h.frame ⟨rfl, rfl, rfl, rfl⟩
  | finishAsync =>
    simp only [CoreLifetime.step, Option.ite_none_right_eq_some, Option.some.injEq] at hs
    exact hs.2 ▸ h.frame ⟨rfl, rfl, rfl, rfl⟩
  | finishPlaying =>
    simp only [CoreLifetime.step, Option.ite_none_right_eq_some, Option.some.injEq] at hs
    exact hs.2 ▸ h.frame ⟨rfl, rfl, rfl, rfl⟩
  | core =>
    simp only [CoreLifetime.step, State.coreThread, Option.ite_none_left_eq_some] at hs
    obtain ⟨-, hs⟩ := hs
    split at hs
    · simp only [Option.ite_none_right_eq_some, Option.some.injEq] at hs
      exact hs.2 ▸ h.frame ⟨rfl, rfl, rfl, rfl⟩
    · cases hs
      exact h.frame ⟨rfl, rfl, rfl, rfl⟩
    · simp only [Option.ite_none_right_eq_some, Option.some.injEq] at hs
      exact hs.2 ▸ h.frame ⟨rfl, rfl, rfl, rfl⟩
    · cases hs
  | timeout =>
    simp only [CoreLifetime.step, Option.ite_none_left_eq_some] at hs
    obtain ⟨-, hs⟩ := hs
    split at hs <;> cases hs
    · exact h.frame ⟨rfl, rfl, rfl, rfl⟩
    · exact h.frame ⟨rfl, rfl, rfl, rfl⟩

theorem mustWait_of_async (hasync : 0 < s.outstandingAsync) : s.mustWait = true := by
  simp [State.mustWait, hasync]

/-- The core thread comes to the test of its loop. -/
theorem Threads.testing (h : Threads s) (hcore : s.core ≠ .ended) (interrupted : Bool) :
    Threads { s with interrupted := interrupted, core := .testing } :=
  ⟨h.quit, h.signalled, fun hjoined => absurd (h.joined hjoined) hcore, h.freed, nofun, by simp,
    nofun, nofun, h.asserts⟩

theorem Threads.coreThread (h : Threads s) (hs : s.coreThread = some s') : Threads s' := by
  simp only [State.coreThread, Option.ite_none_left_eq_some] at hs
  obtain ⟨-, hs⟩ := hs
  cases hcore : s.core with
  | playing =>
    rw [hcore] at hs
    simp only [Option.ite_none_right_eq_some, Option.some.injEq] at hs
    obtain ⟨-, rfl⟩ := hs
    exact h.testing (by rw [hcore]; nofun) _
  | testing =>
    rw [hcore] at hs
    cases hs
    refine ⟨h.quit, h.signalled, fun hjoined => ?_, h.freed, fun _ => ?_, fun _ => rfl,
      fun hended => ?_, fun hwaiting _ => ?_, h.asserts⟩
    · have hended := h.joined hjoined
      rw [hcore] at hended
      cases hended
    · dsimp only
      split <;> nofun
    · change s.mustWait = false
      cases hwait : s.mustWait with
      | true =>
        rw [hwait] at hended
        cases hended
      | false => rfl
    · change s.mustWait = true
      cases hwait : s.mustWait with
      | true => rfl
      | false =>
        rw [hwait] at hwaiting
        cases hwaiting
  | waiting =>
    rw [hcore] at hs
    simp only [Option.ite_none_right_eq_some, Option.some.injEq] at hs
    obtain ⟨-, rfl⟩ := hs
    exact h.testing (by rw [hcore]; nofun) _
  | ended =>
    rw [hcore] at hs
    cases hs

/-- While the core thread comes to its queue, it has not ended. -/
theorem ne_ended_of_serves (hserves : s.serves = true) : s.core ≠ .ended := by
  intro hended
  simp [State.serves, hended] at hserves

theorem Threads.step {l : Label} (h : Threads s) (hhandles : Handles s)
    (hs : CoreLifetime.step s l = some s') : Threads s' := by
  cases l with
  | create owner name =>
    simp only [CoreLifetime.step, Option.ite_none_right_eq_some, Option.some.injEq] at hs
    exact hs.2 ▸ h.newClient hhandles name
  | setWeak id =>
    simp only [CoreLifetime.step, Option.ite_none_right_eq_some, Option.some.injEq] at hs
    exact hs.2 ▸ h.setWeak id
  | destroy id terminate =>
    simp only [CoreLifetime.step, Option.ite_none_right_eq_some, Option.some.injEq] at hs
    obtain ⟨hlive, rfl⟩ := hs
    refine h.goto_of_not ?_
    rw [Ne, ← hhandles.terminator, hlive]
    exact fun hterminates => hterminates
  | destroyer id => exact h.destroyer hhandles hs
  | mpvInitialize id =>
    simp only [CoreLifetime.step, Option.ite_none_right_eq_some, Option.some.injEq] at hs
    obtain ⟨-, rfl⟩ := hs
    exact ⟨h.quit, h.signalled, h.joined, h.freed, h.playing, h.shuttingDown, h.ended, nofun,
      h.asserts⟩
  | quit =>
    simp only [CoreLifetime.step, Option.ite_none_right_eq_some, Option.some.injEq] at hs
    exact hs.2 ▸ h.runQuit
  | request id =>
    simp only [CoreLifetime.step, Option.ite_none_right_eq_some, Option.some.injEq] at hs
    obtain ⟨-, rfl⟩ := hs
    exact ⟨h.quit, h.signalled, h.joined, h.freed, h.playing, h.shuttingDown, h.ended, h.awake,
      h.asserts⟩
  | reply id =>
    simp only [CoreLifetime.step, Option.ite_none_right_eq_some, Option.some.injEq] at hs
    obtain ⟨-, rfl⟩ := hs
    exact ⟨h.quit, h.signalled, h.joined, h.freed, h.playing, h.shuttingDown, h.ended, h.awake,
      h.asserts⟩
  | readProperty id =>
    simp only [CoreLifetime.step, Option.ite_none_right_eq_some, Option.some.injEq] at hs
    obtain ⟨-, rfl⟩ := hs
    exact ⟨h.quit, h.signalled, h.joined, h.freed, h.playing, h.shuttingDown, h.ended, h.awake,
      h.asserts⟩
  | propertyRead =>
    simp only [CoreLifetime.step] at hs
    split at hs <;> cases hs
    refine ⟨h.quit, h.signalled, h.joined, h.freed, h.playing, h.shuttingDown, h.ended,
      fun hwaiting hno => h.awake hwaiting ?_, h.asserts⟩
    exact (Bool.or_eq_false_iff.mp hno).1
  | startAsync =>
    simp only [CoreLifetime.step, Option.ite_none_right_eq_some, Option.some.injEq] at hs
    obtain ⟨⟨hserves, -⟩, rfl⟩ := hs
    have hcore : s.core ≠ .ended := ne_ended_of_serves hserves
    exact ⟨h.quit, h.signalled, h.joined, h.freed, h.playing, h.shuttingDown,
      fun hended => absurd hended hcore, fun _ _ => mustWait_of_async (Nat.succ_pos _), h.asserts⟩
  | finishAsync =>
    simp only [CoreLifetime.step, Option.ite_none_right_eq_some, Option.some.injEq] at hs
    obtain ⟨⟨hpos, hserves⟩, rfl⟩ := hs
    refine ⟨h.quit, h.signalled, h.joined, h.freed, h.playing, h.shuttingDown,
      fun hended => absurd hended (ne_ended_of_serves hserves), fun hwaiting hno => ?_, h.asserts⟩
    have hshutting := h.shuttingDown (.inl hwaiting)
    simp only [hshutting, Bool.and_true, Bool.or_eq_false_iff, decide_eq_false_iff_not] at hno
    exact mustWait_of_async (by dsimp only; omega)
  | finishPlaying =>
    simp only [CoreLifetime.step, Option.ite_none_right_eq_some, Option.some.injEq] at hs
    obtain ⟨⟨hplaying, -⟩, rfl⟩ := hs
    exact h.testing (by rw [hplaying]; nofun) _
  | core => exact h.coreThread hs
  | timeout =>
    simp only [CoreLifetime.step, Option.ite_none_left_eq_some] at hs
    obtain ⟨-, hs⟩ := hs
    split at hs <;> cases hs
    · rename_i hplaying
      refine ⟨h.quit, h.signalled, h.joined, h.freed, h.playing, h.shuttingDown, h.ended,
        fun hwaiting => ?_, h.asserts⟩
      have hwaiting : s.core = .waiting := hwaiting
      rw [hplaying] at hwaiting
      cases hwaiting
    · rename_i hwaiting
      exact h.testing (by rw [hwaiting]; nofun) _

/-! ## Replies -/

/-- Whom the core still has to do with is not freed. -/
structure Owed (s : State) : Prop where
  replies : ∀ id, s.reservedEvents id ≠ 0 → (s.handle id).Replied
  reading : ∀ id, s.reading = some id → (s.handle id).Replied ∧ (s.core = .playing ∨ s.core = .waiting)

/-- A call goes on that leaves a handle that is still sent replies, or has none to send to. -/
theorem Owed.goto (h : Owed s) {pc : HandlePc}
    (hpc : (s.handle id).Replied → s.settled id = true ∨ pc.Replied) : Owed (s.goto id pc) := by
  have hkeeps (i : Nat) (hi : i = id → s.settled id = false) (hreplied : (s.handle i).Replied) :
      ((s.goto id pc).handle i).Replied := by
    by_cases heq : i = id
    · subst heq
      have hnew := (hpc hreplied).resolve_left (by rw [hi rfl]; decide)
      simpa [State.goto] using hnew
    · simpa [State.goto, heq] using hreplied
  refine ⟨fun i hi => ?_, fun i hi => ?_⟩
  · refine hkeeps i (fun heq => ?_) (h.replies i hi)
    have hreserved : s.reservedEvents i ≠ 0 := hi
    subst heq
    simp [State.settled, hreserved]
  · obtain ⟨hreplied, hcore⟩ := h.reading i hi
    have hreading : s.reading = some i := hi
    refine ⟨hkeeps i (fun heq => ?_) hreplied, hcore⟩
    subst heq
    simp [State.settled, hreading]

/-- A step that has nothing to do with replies, and leaves the core thread at its queue. -/
theorem Owed.frame (h : Owed s) (hreserved : s'.reservedEvents = s.reservedEvents)
    (hreading : s'.reading = s.reading) (hhandle : s'.handle = s.handle)
    (hcore : s.reading ≠ none → s'.core = s.core) : Owed s' := by
  refine ⟨fun i hi => ?_, fun i hi => ?_⟩
  · rw [hreserved] at hi
    exact hhandle ▸ h.replies i hi
  · rw [hreading] at hi
    rw [hhandle, hcore (by rw [hi]; nofun)]
    exact h.reading i hi

/-- A call goes on whose handle has no replies to get any more. -/
theorem Owed.served (h : Owed s) (hid : ¬ (s.handle id).Replied)
    (hreserved : s'.reservedEvents = s.reservedEvents) (hreading : s'.reading = s.reading)
    (hhandle : ∀ i, i ≠ id → s'.handle i = s.handle i) (hcore : s'.core = s.core) : Owed s' := by
  have hkeeps (i : Nat) (hreplied : (s.handle i).Replied) : (s'.handle i).Replied := by
    have hne : i ≠ id := by
      rintro rfl
      exact hid hreplied
    rwa [hhandle i hne]
  refine ⟨fun i hi => ?_, fun i hi => ?_⟩
  · rw [hreserved] at hi
    exact hkeeps i (h.replies i hi)
  · rw [hreading] at hi
    obtain ⟨hreplied, hplace⟩ := h.reading i hi
    exact ⟨hkeeps i hreplied, hcore ▸ hplace⟩

theorem Owed.newClient (h : Owed s) (name : Option Name) :
    Owed (s.newClient name) := by
  unfold State.newClient
  split
  · exact h
  · split
    · exact h
    · rename_i nname _ _
      have hfields : Owed { s with
          clients := s.clients ++ [{ id := s.created, name := nname : Client }]
          created := s.created + 1 } := h.frame rfl rfl rfl fun _ => rfl
      exact hfields.goto fun _ => .inr trivial

theorem Owed.destroyer (h : Owed s) (hs : s.destroyer id = some s') : Owed s' := by
  cases destroys_of_destroyer hs with
  | quit hid =>
    have hquit : Owed s.runQuit := h.frame rfl rfl rfl fun _ => rfl
    exact hquit.goto fun _ => .inr trivial
  | skip hid => exact h.goto fun _ => .inr trivial
  | settle hid hsettled => exact h.goto fun _ => .inl hsettled
  | remove hid =>
    exact h.served (by rw [hid]; exact fun hreplied => hreplied) rfl rfl
      (fun i hi => by simp [State.removeClient, State.goto, hi]) rfl
  | lock hid | ask hid | signal hid | join hid | free hid =>
    exact h.served (by rw [hid]; exact fun hreplied => hreplied) rfl rfl
      (fun i hi => by simp [State.destroyCore, State.goto, hi]) rfl

theorem Owed.step {l : Label} (h : Owed s) (hs : CoreLifetime.step s l = some s') : Owed s' := by
  cases l with
  | create owner name =>
    simp only [CoreLifetime.step, Option.ite_none_right_eq_some, Option.some.injEq] at hs
    exact hs.2 ▸ h.newClient name
  | destroy id terminate =>
    simp only [CoreLifetime.step, Option.ite_none_right_eq_some, Option.some.injEq] at hs
    obtain ⟨-, rfl⟩ := hs
    cases terminate <;> exact h.goto fun _ => .inr trivial
  | destroyer id => exact h.destroyer hs
  | request id =>
    simp only [CoreLifetime.step, Option.ite_none_right_eq_some, Option.some.injEq] at hs
    obtain ⟨⟨hlive, -⟩, rfl⟩ := hs
    refine ⟨fun i hi => ?_, h.reading⟩
    by_cases heq : i = id
    · subst heq
      exact hlive ▸ trivial
    · exact h.replies i (by simpa [heq] using hi)
  | reply id =>
    simp only [CoreLifetime.step, Option.ite_none_right_eq_some, Option.some.injEq] at hs
    obtain ⟨⟨hpos, -⟩, rfl⟩ := hs
    refine ⟨fun i hi => ?_, h.reading⟩
    by_cases heq : i = id
    · subst heq
      exact h.replies i (Nat.pos_iff_ne_zero.mp hpos)
    · exact h.replies i (by simpa [heq] using hi)
  | readProperty id =>
    simp only [CoreLifetime.step, Option.ite_none_right_eq_some, Option.some.injEq] at hs
    obtain ⟨⟨hserves, hid⟩, rfl⟩ := hs
    refine ⟨h.replies, fun i hi => ?_⟩
    cases hi
    refine ⟨?_, ?_⟩
    · obtain hid | hid := hid <;> exact hid ▸ trivial
    · simp only [State.serves, Bool.and_eq_true, Bool.or_eq_true, decide_eq_true_eq] at hserves
      exact hserves.1
  | propertyRead =>
    simp only [CoreLifetime.step] at hs
    split at hs <;> cases hs
    exact ⟨h.replies, nofun⟩
  | finishPlaying =>
    simp only [CoreLifetime.step, Option.ite_none_right_eq_some, Option.some.injEq] at hs
    obtain ⟨⟨-, hreading, -⟩, rfl⟩ := hs
    exact h.frame rfl rfl rfl fun hne => absurd hreading hne
  | core =>
    simp only [CoreLifetime.step, State.coreThread, Option.ite_none_left_eq_some] at hs
    obtain ⟨hreading, hs⟩ := hs
    have hreading : s.reading = none := by simpa using hreading
    have hframe : s'.reservedEvents = s.reservedEvents ∧ s'.reading = s.reading ∧
        s'.handle = s.handle := by
      split at hs
      · simp only [Option.ite_none_right_eq_some, Option.some.injEq] at hs
        exact hs.2 ▸ ⟨rfl, rfl, rfl⟩
      · cases hs
        exact ⟨rfl, rfl, rfl⟩
      · simp only [Option.ite_none_right_eq_some, Option.some.injEq] at hs
        exact hs.2 ▸ ⟨rfl, rfl, rfl⟩
      · cases hs
    exact h.frame hframe.1 hframe.2.1 hframe.2.2 fun hne => absurd hreading hne
  | timeout =>
    simp only [CoreLifetime.step, Option.ite_none_left_eq_some] at hs
    obtain ⟨hreading, hs⟩ := hs
    have hreading : s.reading = none := by simpa using hreading
    split at hs <;> cases hs <;> exact h.frame rfl rfl rfl fun hne => absurd hreading hne
  | setWeak | mpvInitialize | quit | startAsync | finishAsync =>
    simp only [CoreLifetime.step, Option.ite_none_right_eq_some, Option.some.injEq] at hs
    exact hs.2 ▸ h.frame rfl rfl rfl fun _ => rfl

/-! ## What comes out of it -/

/-- The state that `mpv_create` leaves. -/
theorem init_eq : State.newClient {} (some "main".toList) =
    { clients := [⟨0, "main".toList, false⟩]
      handle := Function.update (fun _ => .absent) 0 .live
      created := 1 } := by
  have hname : findName [] "main".toList = some "main".toList := by decide +kernel
  simp only [State.newClient, List.map_nil, Option.getD_some, hname]
  rfl

theorem handles_of_reachable (h : lifetime.Reachable s) : Handles s := by
  refine h.invariant ?_ fun _ _ _ h _ hs => h.step hs
  rintro _ rfl
  rw [init_eq]
  refine ⟨fun i => ?_, List.nodup_singleton _, fun i hi => ?_, fun i => ?_, nofun,
    List.nodup_singleton _, fun c hc => ?_⟩
  · by_cases hi : i = 0
    · subst hi
      simp [HandlePc.Listed]
    · simp [hi, HandlePc.Listed]
  · have hne : i ≠ 0 := by
      have hi : 1 ≤ i := hi
      omega
    simp [hne]
  · by_cases hi : i = 0
    · subst hi
      simp [HandlePc.Terminates]
    · simp [hi, HandlePc.Terminates]
  · rw [List.mem_singleton.mp hc]
    have hname : findName [] "main".toList = some "main".toList := by decide +kernel
    exact (findName_spec hname).1

theorem threads_of_reachable (h : lifetime.Reachable s) : Threads s := by
  refine h.invariant_of (fun _ hs => handles_of_reachable hs) ?_ fun _ _ _ hhandles h _ hs =>
    h.step hhandles hs
  rintro _ rfl
  rw [init_eq]
  exact .of_stage (p := .absent) rfl (fun hquit => hquit.elim) (by simp [HandlePc.HasSignalled])
    (fun hjoined => hjoined.elim) rfl nofun (by simp) nofun nofun rfl

theorem owed_of_reachable (h : lifetime.Reachable s) : Owed s := by
  refine h.invariant ?_ fun _ _ _ h _ hs => h.step hs
  rintro _ rfl
  rw [init_eq]
  exact ⟨fun _ hne => absurd rfl hne, nofun⟩

theorem HandlePc.Replied.listed {pc : HandlePc} (h : pc.Replied) : pc.Listed := by
  cases pc <;> trivial

/-- When the core is freed, no handle is left, every call has returned and the core thread has
    ended. -/
theorem over_of_freed (h : lifetime.Reachable s) (hfreed : s.freed = 1) :
    s.core = .ended ∧ s.clients = [] ∧ s.outstandingAsync = 0 ∧ ∀ id, (s.handle id).Over := by
  have hhandles := handles_of_reachable h
  have hthreads := threads_of_reachable h
  have hstage : s.stage = .terminated := by
    by_contra hne
    rw [hthreads.freed, if_neg hne] at hfreed
    cases hfreed
  have hended := hthreads.joined (hstage ▸ trivial)
  have hwait := hthreads.ended hended
  simp only [State.mustWait, Bool.or_eq_false_iff, Bool.not_eq_false', List.isEmpty_iff,
    decide_eq_false_iff_not, Nat.not_lt, Nat.le_zero] at hwait
  obtain ⟨⟨hclients, hasync⟩, -⟩ := hwait
  refine ⟨hended, hclients, hasync, fun i => ?_⟩
  have hunlisted : ¬ (s.handle i).Listed := by
    rw [← hhandles.listed, hclients]
    simp
  by_cases hterminates : (s.handle i).Terminates
  · rw [← hhandles.terminates_stage hterminates, hstage]
    trivial
  · cases hp : s.handle i with
    | absent | terminated | gone => trivial
    | live | quitting | settling | removing =>
      rw [hp] at hunlisted
      exact absurd trivial hunlisted
    | locking | asking | signalling | joining | destroying =>
      rw [hp] at hterminates
      exact absurd trivial hterminates

/-- A core without handles is freed, or there is a call that is to do so. -/
theorem terminates_of_reachable (h : lifetime.Reachable s) (hnil : s.clients = []) :
    ∃ id, (s.handle id).Terminates := by
  have hhandles := handles_of_reachable h
  obtain ⟨id, hid⟩ := Option.ne_none_iff_exists'.mp (hhandles.owned hnil)
  exact ⟨id, (hhandles.terminator id).mpr hid⟩

/-- In every reachable state the core was freed once at most, and when it is, no handle is left,
    every call has returned and the core thread has ended. -/
theorem freedOnce_of_reachable (h : lifetime.Reachable s) : FreedOnce s := by
  have hhandles := handles_of_reachable h
  have hthreads := threads_of_reachable h
  have howed := owed_of_reachable h
  refine ⟨?_, over_of_freed h, fun i j hi hj => ?_, terminates_of_reachable h, hhandles.names,
    fun i hi => ?_, hthreads.asserts⟩
  · rw [hthreads.freed]
    split <;> decide
  · exact Option.some.inj (((hhandles.terminator i).mp hi).symm.trans ((hhandles.terminator j).mp hj))
  · exact (hhandles.listed i).mpr
      (hi.elim (howed.replies i) fun hreading => (howed.reading i hreading).1).listed

/-- The only handle is destroyed while the core plays, and a reply is still to come. -/
theorem freedOnce_after_destroy : ∃ s, FreedOnce s ∧ s.freed = 1 := by
  obtain ⟨s, hs, htest⟩ := Machine.Reachable.exec_any
    (.init rfl : lifetime.Reachable (State.newClient {} (some "main".toList)))
    [.mpvInitialize 0, .request 0, .readProperty 0, .destroy 0 true, .propertyRead, .destroyer 0,
      .reply 0, .destroyer 0, .destroyer 0, .destroyer 0, .core, .core, .destroyer 0, .destroyer 0,
      .core, .core, .destroyer 0, .destroyer 0]
    (p := fun s => decide (s.freed = 1)) (by decide +kernel)
  exact ⟨s, freedOnce_of_reachable hs, of_decide_eq_true htest⟩

end CoreLifetime
