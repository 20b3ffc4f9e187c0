-- SUMMARY: That the core comes to its end once its handles are destroyed, whatever was going on.
import KitPlayerCore.Mpv.CoreTeardown

/-!
# Coming to the end

From every reachable state, if the owners destroy their handles and nobody starts anything new,
the core thread ends and the core is freed. No call of `mpv_destroy` waits for ever on the way:
the core thread comes to its queue for the command `quit` and for the replies as long as there is
a handle.
-/

namespace CoreLifetime

open Transition

variable {s s' : State} {id : Nat}

/-- The handles are destroyed, the calls and the core thread go on, and what was requested or runs
    asynchronously comes to its end. -/
def Ends : Label → Prop
  | .destroy _ _ | .destroyer _ | .reply _ | .propertyRead | .finishAsync | .core => True
  | _ => False

/-! ## The queue of the core thread -/

/-- The core thread has moved, and nothing else. -/
structure Kept (s t : State) : Prop where
  clients : t.clients = s.clients
  handle : t.handle = s.handle
  reservedEvents : t.reservedEvents = s.reservedEvents
  outstandingAsync : t.outstandingAsync = s.outstandingAsync

theorem mustWait_of_clients (hclients : s.clients ≠ []) : s.mustWait = true := by
  simp [State.mustWait, hclients]

theorem reading_of_serves (hserves : s.serves = true) : s.reading = none := by
  simp only [State.serves, Bool.and_eq_true] at hserves
  exact Option.isNone_iff_eq_none.mp hserves.2

/-- While there is something to wait for, the core thread comes to its dispatch queue. -/
theorem serves_of_mustWait (h : lifetime.Reachable s) (hwait : s.mustWait = true) :
    ∃ t, lifetime.Leads Ends s t ∧ t.serves = true ∧ Kept s t := by
  cases hreading : s.reading with
  | some id =>
    obtain ⟨-, hcore⟩ := (owed_of_reachable h).reading id hreading
    have hstep : lifetime.step s .propertyRead = some { s with
        reading := none
        interrupted := s.interrupted || s.handle id ≠ .live && s.handle id ≠ .quitting } := by
      simp only [lifetime, CoreLifetime.step, hreading]
    refine ⟨_, .single (l := .propertyRead) trivial hstep, ?_, rfl, rfl, rfl, rfl⟩
    obtain hcore | hcore := hcore <;> simp [State.serves, hcore]
  | none =>
    cases hcore : s.core with
    | playing => exact ⟨s, .refl s, by simp [State.serves, hcore, hreading], rfl, rfl, rfl, rfl⟩
    | waiting => exact ⟨s, .refl s, by simp [State.serves, hcore, hreading], rfl, rfl, rfl, rfl⟩
    | testing =>
      have hstep : lifetime.step s .core = some { s with shuttingDown := true, core := .waiting } := by
        simp [lifetime, CoreLifetime.step, State.coreThread, hreading, hcore, hwait]
      exact ⟨_, .single (l := .core) trivial hstep, by simp [State.serves, hreading], rfl, rfl, rfl,
        rfl⟩
    | ended =>
      rw [(threads_of_reachable h).ended hcore] at hwait
      cases hwait

/-! ## The handles -/

/-- All replies that are owed to a handle are sent. -/
theorem settled_of_reachable (id : Nat) {n : Nat} (h : lifetime.Reachable s)
    (hclients : s.clients ≠ []) (hn : s.reservedEvents id = n) :
    ∃ t, lifetime.Leads Ends s t ∧ t.settled id = true ∧ t.clients = s.clients ∧
      t.handle = s.handle := by
  induction n generalizing s with
  | zero =>
    obtain ⟨t, hlead, hserves, hkept⟩ := serves_of_mustWait h (mustWait_of_clients hclients)
    refine ⟨t, hlead, ?_, hkept.clients, hkept.handle⟩
    simp [State.settled, hkept.reservedEvents, hn, reading_of_serves hserves]
  | succ n ih =>
    obtain ⟨t, hlead, hserves, hkept⟩ := serves_of_mustWait h (mustWait_of_clients hclients)
    have hreserved : t.reservedEvents id = n + 1 := by rw [hkept.reservedEvents, hn]
    have hstep : lifetime.step t (.reply id) = some { t with
        reservedEvents := Function.update t.reservedEvents id (t.reservedEvents id - 1) } :=
      if_pos ⟨by omega, hserves⟩
    obtain ⟨u, hrest, hsettled, huclients, hhandle⟩ := ih ((h.leads hlead).step trivial hstep)
      (by rw [hkept.clients]; exact hclients) (by simp [hreserved])
    exact ⟨u, hlead.trans (.head (l := .reply id) trivial hstep hrest), hsettled,
      huclients.trans hkept.clients, hhandle.trans hkept.handle⟩

/-- A call that waits for the replies comes to remove its client. -/
theorem removing_of_settling {terminate : Bool} (h : lifetime.Reachable s)
    (hclients : s.clients ≠ []) (hid : s.handle id = .settling terminate) :
    ∃ t, lifetime.Leads Ends s t ∧ t.clients = s.clients ∧ t.handle id = .removing terminate := by
  obtain ⟨t, hlead, hsettled, htclients, hhandle⟩ := settled_of_reachable id h hclients rfl
  have hstep : lifetime.step t (.destroyer id) = some (t.goto id (.removing terminate)) := by
    simp only [lifetime, CoreLifetime.step, State.destroyer, hhandle, hid, hsettled, if_true]
  exact ⟨_, hlead.trans (.single (l := .destroyer id) trivial hstep), htclients,
    by simp [State.goto]⟩

/-- A call that gives the command `quit` comes to remove its client. -/
theorem removing_of_quitting (h : lifetime.Reachable s) (hclients : s.clients ≠ [])
    (hid : s.handle id = .quitting) :
    ∃ t, lifetime.Leads Ends s t ∧ t.clients = s.clients ∧ t.handle id = .removing true := by
  obtain ⟨t, hlead, hserves, hkept⟩ := serves_of_mustWait h (mustWait_of_clients hclients)
  obtain ⟨u, hstep, huclients, huid⟩ : ∃ u, lifetime.step t (.destroyer id) = some u ∧
      u.clients = s.clients ∧ u.handle id = .settling true := by
    simp only [lifetime, CoreLifetime.step, State.destroyer, hkept.handle, hid, hserves, if_true]
    split
    · exact ⟨_, rfl, hkept.clients, by simp [State.goto]⟩
    · exact ⟨_, rfl, hkept.clients, by simp [State.goto]⟩
  obtain ⟨v, hrest, hvclients, hvid⟩ := removing_of_settling ((h.leads hlead).step trivial hstep)
    (by rw [huclients]; exact hclients) huid
  exact ⟨v, hlead.trans (.head (l := .destroyer id) trivial hstep hrest),
    hvclients.trans huclients, hvid⟩

/-- Every handle comes to be removed. -/
theorem removing_of_listed (h : lifetime.Reachable s) (hclients : s.clients ≠ [])
    (hid : (s.handle id).Listed) :
    ∃ t terminate, lifetime.Leads Ends s t ∧ t.clients = s.clients ∧
      t.handle id = .removing terminate := by
  cases hp : s.handle id with
  | live =>
    have hstep : lifetime.step s (.destroy id false) = some (s.goto id (.settling false)) :=
      if_pos hp
    have hsettling : (s.goto id (.settling false)).handle id = .settling false := by
      simp [State.goto]
    obtain ⟨t, hlead, hend⟩ := removing_of_settling (h.step trivial hstep) hclients hsettling
    exact ⟨t, false, .head (l := .destroy id false) trivial hstep hlead, hend⟩
  | quitting =>
    obtain ⟨t, hlead, hend⟩ := removing_of_quitting h hclients hp
    exact ⟨t, true, hlead, hend⟩
  | settling terminate =>
    obtain ⟨t, hlead, hend⟩ := removing_of_settling h hclients hp
    exact ⟨t, terminate, hlead, hend⟩
  | removing terminate => exact ⟨s, terminate, .refl s, rfl, hp⟩
  | absent | locking | asking | signalling | joining | destroying | terminated | gone =>
    rw [hp] at hid
    exact hid.elim

/-- One handle after the other is destroyed. -/
theorem unlisted_of_reachable {n : Nat} (h : lifetime.Reachable s) (hn : s.clients.length = n) :
    ∃ t, lifetime.Leads Ends s t ∧ t.clients = [] := by
  induction n generalizing s with
  | zero => exact ⟨s, .refl s, List.length_eq_zero_iff.mp hn⟩
  | succ n ih =>
    obtain ⟨c, clients, hclients⟩ := List.exists_cons_of_length_eq_add_one hn
    have hlisted : (s.handle c.id).Listed := by
      rw [← (handles_of_reachable h).listed, hclients]
      exact List.mem_cons_self
    obtain ⟨t, terminate, hlead, htclients, hid⟩ :=
      removing_of_listed h (by rw [hclients]; nofun) hlisted
    have hstep : lifetime.step t (.destroyer c.id) = some (t.removeClient c.id terminate) := by
      simp only [lifetime, CoreLifetime.step, State.destroyer, hid]
    have hrest : (t.removeClient c.id terminate).clients = clients := by
      simp [State.removeClient, State.goto, htclients, hclients]
    obtain ⟨u, hmore, hnil⟩ := ih ((h.leads hlead).step trivial hstep) (by
      rw [hrest]
      simpa [hclients] using hn)
    exact ⟨u, hlead.trans (.head (l := .destroyer c.id) trivial hstep hmore), hnil⟩

/-! ## The core thread -/

/-- What runs asynchronously comes to its end. -/
theorem quiet_of_reachable {n : Nat} (h : lifetime.Reachable s) (hn : s.outstandingAsync = n) :
    ∃ t, lifetime.Leads Ends s t ∧ t.outstandingAsync = 0 ∧ t.clients = s.clients ∧
      t.handle = s.handle := by
  induction n generalizing s with
  | zero => exact ⟨s, .refl s, hn, rfl, rfl⟩
  | succ n ih =>
    have hpos : 0 < s.outstandingAsync := by omega
    obtain ⟨t, hlead, hserves, hkept⟩ := serves_of_mustWait h (mustWait_of_async hpos)
    have hcount := hkept.outstandingAsync
    have hstep : lifetime.step t .finishAsync = some { t with
        outstandingAsync := t.outstandingAsync - 1
        interrupted := t.interrupted || (t.outstandingAsync = 1 && t.shuttingDown) } :=
      if_pos ⟨by omega, hserves⟩
    obtain ⟨u, hrest, hzero, hclients, hhandle⟩ := ih ((h.leads hlead).step trivial hstep)
      (by dsimp only; omega)
    exact ⟨u, hlead.trans (.head (l := .finishAsync) trivial hstep hrest), hzero,
      hclients.trans hkept.clients, hhandle.trans hkept.handle⟩

/-- Without handles the core thread reads no property. -/
theorem reading_of_not_mustWait (h : lifetime.Reachable s) (hwait : s.mustWait = false) :
    s.reading = none := by
  cases hreading : s.reading with
  | none => rfl
  | some id =>
    have hlisted := ((owed_of_reachable h).reading id hreading).1.listed
    rw [← (handles_of_reachable h).listed] at hlisted
    have hclients : s.clients ≠ [] := fun hnil => by simp [hnil] at hlisted
    rw [mustWait_of_clients hclients] at hwait
    cases hwait

/-- When there is nothing left to wait for, the core thread ends. -/
theorem ended_of_reachable (h : lifetime.Reachable s) (hquit : s.quit = true)
    (hwait : s.mustWait = false) :
    ∃ t, lifetime.Leads Ends s t ∧ t.core = .ended ∧ t.handle = s.handle := by
  have hreading : s.reading = none := reading_of_not_mustWait h hwait
  have htesting {u : State} (hcore : u.core = .testing) (hwait : u.mustWait = false)
      (hreading : u.reading = none) :
      ∃ t, lifetime.Leads Ends u t ∧ t.core = .ended ∧ t.handle = u.handle := by
    refine ⟨{ u with shuttingDown := true, core := .ended }, .single (l := .core) trivial ?_, rfl, rfl⟩
    simp [lifetime, CoreLifetime.step, State.coreThread, hcore, hwait, hreading]
  cases hcore : s.core with
  | playing =>
    have hstep : lifetime.step s .core = some { s with core := .testing } := by
      simp [lifetime, CoreLifetime.step, State.coreThread, hreading, hcore, hquit]
    obtain ⟨t, hlead, hend⟩ := htesting (u := { s with core := .testing }) rfl hwait hreading
    exact ⟨t, .head (l := .core) trivial hstep hlead, hend⟩
  | testing => exact htesting hcore hwait hreading
  | waiting =>
    have hinterrupted : s.interrupted = true := by
      by_contra hno
      rw [(threads_of_reachable h).awake hcore (Bool.eq_false_iff.mpr hno)] at hwait
      cases hwait
    have hstep : lifetime.step s .core = some { s with interrupted := false, core := .testing } := by
      simp [lifetime, CoreLifetime.step, State.coreThread, hreading, hcore, hinterrupted]
    obtain ⟨t, hlead, hend⟩ := htesting (u := { s with interrupted := false, core := .testing })
      rfl hwait hreading
    exact ⟨t, .head (l := .core) trivial hstep hlead, hend⟩
  | ended => exact ⟨s, .refl s, hcore, rfl⟩

/-! ## The call that frees the core -/

/-- Without handles, the call that is to free the core can tell the core thread to end. -/
theorem joining_of_reachable (h : lifetime.Reachable s) (hnil : s.clients = []) :
    ∃ t id, lifetime.Leads Ends s t ∧ t.clients = [] ∧ (t.handle id).HasSignalled := by
  obtain ⟨id, hid⟩ := terminates_of_reachable h hnil
  have hsignalling {u : State} (hu : u.handle id = .signalling) (hnil : u.clients = []) :
      ∃ t id, lifetime.Leads Ends u t ∧ t.clients = [] ∧ (t.handle id).HasSignalled := by
    refine ⟨{ u with terminateCoreThread := true, interrupted := true }.goto id .joining, id,
      .single (l := .destroyer id) trivial ?_, hnil, by simp [State.goto, HandlePc.HasSignalled]⟩
    simp only [lifetime, CoreLifetime.step, State.destroyer, hu]
  -- the core thread has not ended, as it was not told to
  have hserves {u : State} (hu : lifetime.Reachable u) (hterminates : (u.handle id).Terminates)
      (hnot : ¬ (u.handle id).HasSignalled) :
      ∃ t, lifetime.Leads Ends u t ∧ t.serves = true ∧ t.clients = u.clients ∧
        t.handle = u.handle := by
    have hflag : u.terminateCoreThread = false := by
      rw [← Bool.not_eq_true, (threads_of_reachable hu).signalled,
        (handles_of_reachable hu).terminates_stage hterminates]
      exact hnot
    obtain ⟨t, hlead, hserves, hkept⟩ := serves_of_mustWait hu (by simp [State.mustWait, hflag])
    exact ⟨t, hlead, hserves, hkept.clients, hkept.handle⟩
  have hasking {u : State} (hreach : lifetime.Reachable u) (hu : u.handle id = .asking)
      (hnil : u.clients = []) :
      ∃ t id, lifetime.Leads Ends u t ∧ t.clients = [] ∧ (t.handle id).HasSignalled := by
    obtain ⟨v, hlead, hserves, hclients, hhandle⟩ := hserves hreach (hu ▸ trivial)
      (by rw [hu]; exact fun hsignalled => hsignalled)
    have hstep : lifetime.step v (.destroyer id) = some (v.goto id .signalling) := by
      simp only [lifetime, CoreLifetime.step, State.destroyer, hhandle, hu, hserves, if_true]
    obtain ⟨t, i, hrest, hend⟩ := hsignalling (u := v.goto id .signalling) (by simp [State.goto])
      (hclients.trans hnil)
    exact ⟨t, i, hlead.trans (.head (l := .destroyer id) trivial hstep hrest), hend⟩
  cases hp : s.handle id with
  | absent | live | quitting | settling | removing | gone =>
    rw [hp] at hid
    exact hid.elim
  | locking =>
    obtain ⟨v, hlead, hserves, hclients, hhandle⟩ := hserves h hid
      (by rw [hp]; exact fun hsignalled => hsignalled)
    have hstep : lifetime.step v (.destroyer id) = some ({ v with quit := true }.goto id .asking) := by
      simp only [lifetime, CoreLifetime.step, State.destroyer, hhandle, hp, hserves, if_true]
    obtain ⟨t, i, hrest, hend⟩ := hasking (u := { v with quit := true }.goto id .asking)
      ((h.leads hlead).step trivial hstep) (by simp [State.goto]) (hclients.trans hnil)
    exact ⟨t, i, hlead.trans (.head (l := .destroyer id) trivial hstep hrest), hend⟩
  | asking => exact hasking h hp hnil
  | signalling => exact hsignalling hp hnil
  | joining => exact ⟨s, id, .refl s, hnil, hp ▸ trivial⟩
  | destroying => exact ⟨s, id, .refl s, hnil, hp ▸ trivial⟩
  | terminated => exact ⟨s, id, .refl s, hnil, hp ▸ trivial⟩

theorem HandlePc.HasSignalled.terminates {pc : HandlePc} (h : pc.HasSignalled) : pc.Terminates := by
  cases pc <;> trivial

theorem HandlePc.HasSignalled.hasQuit {pc : HandlePc} (h : pc.HasSignalled) : pc.HasQuit := by
  cases pc <;> trivial

/-- Once the core thread has ended, the call frees the core. -/
theorem freed_of_ended (h : lifetime.Reachable s) (hcore : s.core = .ended)
    (hid : (s.handle id).HasSignalled) : ∃ t, lifetime.Leads Ends s t ∧ t.freed = 1 := by
  have hdestroying {u : State} (hreach : lifetime.Reachable u) (hu : u.handle id = .destroying) :
      ∃ t, lifetime.Leads Ends u t ∧ t.freed = 1 := by
    have hstep : lifetime.step u (.destroyer id) = some (u.destroyCore.goto id .terminated) := by
      simp only [lifetime, CoreLifetime.step, State.destroyer, hu]
    have hfreed := (threads_of_reachable hreach).freed
    have hterminates : (u.handle id).Terminates := hu.symm ▸ trivial
    rw [(handles_of_reachable hreach).terminates_stage hterminates, hu] at hfreed
    exact ⟨_, .single (l := .destroyer id) trivial hstep, congrArg (· + 1) hfreed⟩
  cases hp : s.handle id with
  | joining =>
    have hstep : lifetime.step s (.destroyer id) = some (s.goto id .destroying) := by
      simp only [lifetime, CoreLifetime.step, State.destroyer, hp, hcore, if_true]
    obtain ⟨t, hlead, hfreed⟩ := hdestroying (u := s.goto id .destroying) (h.step trivial hstep)
      (by simp [State.goto])
    exact ⟨t, .head (l := .destroyer id) trivial hstep hlead, hfreed⟩
  | destroying => exact hdestroying h hp
  | terminated =>
    have hfreed := (threads_of_reachable h).freed
    have hterminates : (s.handle id).Terminates := hp.symm ▸ trivial
    rw [(handles_of_reachable h).terminates_stage hterminates, hp] at hfreed
    exact ⟨s, .refl s, hfreed⟩
  | absent | live | quitting | settling | removing | locking | asking | signalling | gone =>
    rw [hp] at hid
    exact hid.elim

/-- From every reachable state the core can come to its end: all handles are destroyed, every call
    returns, and the core is freed. -/
theorem freed_of_reachable (h : lifetime.Reachable s) :
    ∃ t, lifetime.Leads Ends s t ∧ t.freed = 1 ∧ ∀ id, (t.handle id).Over := by
  obtain ⟨t, ht, hnil⟩ := unlisted_of_reachable h rfl
  obtain ⟨u, id, hu, hunil, hid⟩ := joining_of_reachable (h.leads ht) hnil
  obtain ⟨v, hv, hasync, hclients, hhandle⟩ := quiet_of_reachable ((h.leads ht).leads hu) rfl
  have hreach := ((h.leads ht).leads hu).leads hv
  have hid : (v.handle id).HasSignalled := hhandle ▸ hid
  have hstage := (handles_of_reachable hreach).terminates_stage hid.terminates
  have hthreads := threads_of_reachable hreach
  have hquit : v.quit = true := hthreads.quit (hstage ▸ hid.hasQuit)
  have hflag : v.terminateCoreThread = true := hthreads.signalled.mpr (hstage ▸ hid)
  have hwait : v.mustWait = false := by
    simp [State.mustWait, hclients.trans hunil, hasync, hflag]
  obtain ⟨w, hw, hended, hwhandle⟩ := ended_of_reachable hreach hquit hwait
  obtain ⟨x, hx, hfreed⟩ := freed_of_ended (hreach.leads hw) hended (hwhandle ▸ hid)
  have hlead := (((ht.trans hu).trans hv).trans hw).trans hx
  exact ⟨x, hlead, hfreed, (over_of_freed (h.leads hlead) hfreed).2.2.2⟩

/-- A handle that the core reads a property for is about to give the command `quit`, with a reply
    to come. A second handle and a command are still there. -/
theorem freed_after_async : ∃ s t, s.handle 0 = .quitting ∧ s.handle 1 = .live ∧
    s.reservedEvents 0 = 1 ∧ s.reading = some 0 ∧ s.outstandingAsync = 1 ∧
    lifetime.Leads Ends s t ∧ t.freed = 1 := by
  obtain ⟨s, hs, htest⟩ := Machine.Reachable.exec_any
    (.init rfl : lifetime.Reachable (State.newClient {} (some "main".toList)))
    [.create (some 0) none, .mpvInitialize 0, .request 0, .startAsync, .readProperty 0,
      .destroy 0 true]
    (p := fun s => decide (s.handle 0 = .quitting ∧ s.handle 1 = .live ∧ s.reservedEvents 0 = 1 ∧
      s.reading = some 0 ∧ s.outstandingAsync = 1))
    (by decide +kernel)
  obtain ⟨hquitting, hlive, hreserved, hreading, hasync⟩ := of_decide_eq_true htest
  obtain ⟨t, hlead, hfreed, -⟩ := freed_of_reachable hs
  exact ⟨s, t, hquitting, hlive, hreserved, hreading, hasync, hlead, hfreed⟩

end CoreLifetime
