-- SUMMARY: That an observed property is freed when nothing uses it any more, and not before, and that a handle is freed only when the core has left it.
import KitPlayerCore.Mpv.Observe

/-!
# The lifetime of observed properties

The array of the client, the event that it was given last, and the core while it reads a property
each have a reference of their own.
-/

namespace Observe

open Transition

variable {φ V : Type} {s s' : State φ V} {p : Nat}

/-- How many of the three have a reference to the property. -/
def State.holders (s : State φ V) (p : Nat) : Nat :=
  (if p ∈ s.properties then 1 else 0) + (if s.curProperty = some p then 1 else 0) +
    if s.reading.map Reading.prop = some p then 1 else 0

/-- The core reads a property of an array that has not changed since. -/
def State.Reads (s : State φ V) (r : Reading V) : Prop :=
  s.reading = some r ∧ r.curTs = s.propertiesChangeTs ∧ s.destroying = false

/-- The references are counted. -/
structure Counted (s : State φ V) : Prop where
  nodup : s.properties.Nodup
  allocated : ∀ p ∈ s.properties, p < s.allocated
  cur : ∀ p, s.curProperty = some p → p < s.allocated
  /-- A property is freed as soon as nothing refers to it. -/
  refcount : ∀ p, p < s.allocated → (s.heap p).refcount = s.holders p
  read : ∀ r, s.reading = some r → r.prop < s.allocated ∧ r.curTs ≤ s.propertiesChangeTs
  /-- The loop of the core goes on where it was. -/
  index : ∀ r, s.Reads r → s.properties[r.index]? = some r.prop
  async : s.asyncCounter = s.reading.isSome.toNat
  destroyed : s.destroying = true → s.properties = [] ∧ s.curProperty = none
  /-- The core does not come back to a handle that was freed. -/
  gone : s.gone = true → s.destroying = true ∧ s.reading = none
  /-- No reference is given back twice. -/
  asserts : s.failed = false

/-! ## What the operations do -/

theorem wakeupClient_eq (s : State φ V) :
    s.wakeupClient = { s with
      needWakeup := true
      waiter := if s.needWakeup then s.waiter else s.waiter.wake
      settlers := fun n => if s.needWakeup then s.settlers n else (s.settlers n).wake } := by
  unfold State.wakeupClient
  split
  · rename_i hneed
    obtain ⟨_, _, _, _, _, _, _, _, _, _, _, _, needWakeup⟩ := s
    cases hneed
    rfl
  · simp

theorem unref_of_pos (hpos : 0 < (s.heap p).refcount) :
    s.unref p = s.modify p fun x => { x with refcount := x.refcount - 1 } := by
  simp [State.unref, State.modify, hpos]

/-- Each of the properties loses a reference. -/
theorem unrefAll_of_pos {ps : List Nat} (hnodup : ps.Nodup)
    (hpos : ∀ p ∈ ps, 0 < (s.heap p).refcount) :
    s.unrefAll ps = { s with
      heap := fun p =>
        if p ∈ ps then { s.heap p with refcount := (s.heap p).refcount - 1 } else s.heap p } := by
  induction ps generalizing s with
  | nil => rfl
  | cons p ps ih =>
    obtain ⟨hp, hps⟩ := List.nodup_cons.mp hnodup
    have hrest (q : Nat) (hq : q ∈ ps) : q ≠ p := by
      rintro rfl
      exact hp hq
    rw [State.unrefAll, List.foldl_cons, unref_of_pos (hpos p List.mem_cons_self), ← State.unrefAll,
      ih hps fun q hq => by
        simpa [State.modify, hrest q hq] using hpos q (List.mem_cons_of_mem _ hq)]
    simp only [State.modify, State.mk.injEq, and_true]
    funext q
    by_cases hqp : q = p
    · subst hqp
      simp [hp]
    · simp [hqp]

/-- A step that leaves the references alone. -/
structure Same (s s' : State φ V) : Prop where
  properties : s'.properties = s.properties
  allocated : s'.allocated = s.allocated
  curProperty : s'.curProperty = s.curProperty
  refcount : ∀ p, (s'.heap p).refcount = (s.heap p).refcount
  reading : s'.reading = s.reading
  changeTs : s'.propertiesChangeTs = s.propertiesChangeTs
  async : s'.asyncCounter = s.asyncCounter
  destroying : s'.destroying = s.destroying
  gone : s'.gone = s.gone
  failed : s'.failed = s.failed

theorem Counted.same (h : Counted s) (hs : Same s s') : Counted s' := by
  refine ⟨?_, ?_, ?_, fun p hp => ?_, ?_, fun r hr => ?_, ?_, ?_, ?_, ?_⟩
  · rw [hs.properties]
    exact h.nodup
  · rw [hs.properties, hs.allocated]
    exact h.allocated
  · rw [hs.curProperty, hs.allocated]
    exact h.cur
  · rw [hs.allocated] at hp
    rw [hs.refcount, h.refcount p hp, State.holders, State.holders, hs.properties, hs.curProperty,
      hs.reading]
  · rw [hs.reading, hs.allocated, hs.changeTs]
    exact h.read
  · obtain ⟨hreading, hts, hdestroying⟩ := hr
    rw [hs.properties]
    exact h.index r ⟨hs.reading ▸ hreading, hts.trans hs.changeTs, hs.destroying ▸ hdestroying⟩
  · rw [hs.async, hs.reading]
    exact h.async
  · rw [hs.destroying, hs.properties, hs.curProperty]
    exact h.destroyed
  · rw [hs.gone, hs.destroying, hs.reading]
    exact h.gone
  · rw [hs.failed]
    exact h.asserts

theorem Same.modify (s : State φ V) (p : Nat)
    {f : ObserveProperty φ V → ObserveProperty φ V}
    (hf : ∀ x, (f x).refcount = x.refcount) : Same s (s.modify p f) := by
  refine ⟨rfl, rfl, rfl, fun q => ?_, rfl, rfl, rfl, rfl, rfl, rfl⟩
  by_cases hqp : q = p
  · subst hqp
    simp [State.modify, hf]
  · simp [State.modify, hqp]

theorem Same.sent (s : State φ V) : Same s s.sent := by
  unfold State.sent
  split
  · rw [wakeupClient_eq]
    exact ⟨rfl, rfl, rfl, fun _ => rfl, rfl, rfl, rfl, rfl, rfl, rfl⟩
  · exact ⟨rfl, rfl, rfl, fun _ => rfl, rfl, rfl, rfl, rfl, rfl, rfl⟩

/-- What has a reference is not freed. -/
theorem Counted.pos (h : Counted s) (hp : p < s.allocated) (hheld : 0 < s.holders p) :
    0 < (s.heap p).refcount := by
  rw [h.refcount p hp]
  exact hheld

theorem State.holders_pos_of_mem (hp : p ∈ s.properties) : 0 < s.holders p := by
  simp only [holders, if_pos hp]
  omega

theorem State.holders_pos_of_cur (hp : s.curProperty = some p) : 0 < s.holders p := by
  simp only [holders, if_pos hp]
  omega

theorem State.holders_pos_of_reading {r : Reading V} (hr : s.reading = some r) :
    0 < s.holders r.prop := by
  simp [holders, hr]

/-! ## The core -/

theorem Counted.walk {ps : List Nat} {n : Nat} (h : Counted s) (hread : s.reading = none)
    (hgone : s.gone = false) (hps : s.properties.drop n = ps) : Counted (s.walk n ps) := by
  induction ps generalizing s n with
  | nil => exact h.same (.sent s)
  | cons p ps ih =>
    have hnext : s.properties.drop (n + 1) = ps := by
      rw [← List.drop_drop, hps, List.drop_one, List.tail_cons]
    have hn : s.properties[n]? = some p := by
      rw [← Nat.add_zero n, ← List.getElem?_drop, hps, List.getElem?_cons_zero]
    have hp : p ∈ s.properties := List.mem_of_getElem? hn
    unfold State.walk
    dsimp only
    split
    · exact ih h hread hgone hnext
    split
    · refine ⟨h.nodup, h.allocated, h.cur, fun q hq => ?_, ?_, ?_, ?_, h.destroyed, ?_, h.asserts⟩
      · have hc := h.refcount q hq
        simp only [State.holders, hread, Option.map_none, reduceCtorEq, if_false] at hc
        by_cases hqp : p = q
        · subst hqp
          simp [State.ref, State.modify, State.holders, hc]
        · simp only [State.ref, State.modify, State.holders, Function.update_of_ne (Ne.symm hqp),
            hc, Option.map_some, Option.some.injEq, if_neg hqp]
          rfl
      · rintro r ⟨⟩
        exact ⟨h.allocated p hp, Nat.le_refl _⟩
      · rintro r ⟨⟨⟩, -⟩
        exact hn
      · simp [h.async, hread]
      · intro hg
        simp [State.ref, State.modify, hgone] at hg
    · have hnew : Counted { s with newPropertyEvents := true } :=
        h.same ⟨rfl, rfl, rfl, fun _ => rfl, rfl, rfl, rfl, rfl, rfl, rfl⟩
      exact ih (hnew.same (.modify _ p fun _ => rfl)) hread hgone hnext

/-- The core has found the value. -/
theorem Counted.found {r : Reading V} (h : Counted s) (hr : s.reading = some r) :
    Counted (s.read r) := by
  refine ⟨h.nodup, h.allocated, h.cur, fun q hq => ?_, ?_, ?_, ?_, h.destroyed, ?_, h.asserts⟩
  · rw [State.holders, ← show s.reading.map Reading.prop = (s.read r).reading.map Reading.prop by
      rw [hr]
      rfl]
    exact h.refcount q hq
  · rintro _ ⟨⟩
    exact h.read r hr
  · rintro _ ⟨⟨⟩, hts⟩
    exact h.index r ⟨hr, hts⟩
  · rw [State.read, h.async, hr]
    rfl
  · intro hg
    have := (h.gone hg).2
    simp [hr] at this

/-- The core has the lock again, and gives back the reference to the property. -/
theorem Counted.release {r : Reading V} (h : Counted s) (hr : s.reading = some r) :
    Counted ({ s with asyncCounter := s.asyncCounter - 1, reading := none }.unref r.prop) := by
  have hpos : 0 < (s.heap r.prop).refcount :=
    h.pos (h.read r hr).1 (State.holders_pos_of_reading hr)
  rw [unref_of_pos (s := { s with asyncCounter := s.asyncCounter - 1, reading := none }) hpos]
  refine ⟨h.nodup, h.allocated, h.cur, fun q hq => ?_, by rintro _ ⟨⟩, by rintro _ ⟨⟨⟩, -⟩, ?_,
    h.destroyed, fun hg => ⟨(h.gone hg).1, rfl⟩, h.asserts⟩
  · have hc := h.refcount q hq
    simp only [State.holders, hr, Option.map_some, Option.some.injEq] at hc
    by_cases hqp : r.prop = q
    · subst hqp
      simp [State.modify, State.holders, hc]
    · rw [if_neg hqp] at hc
      simp only [State.modify, Function.update_of_ne (Ne.symm hqp), hc]
      rfl
  · simp [State.modify, h.async, hr]

theorem Counted.relock [DecidableEq V] {r : Reading V} {val : Option V} (h : Counted s)
    (hr : s.reading = some r) : Counted (s.relock r val) := by
  have hgone : s.gone = false := by
    cases hg : s.gone
    · rfl
    · have := (h.gone hg).2
      simp [hr] at this
  have hreleased := h.release hr
  set s' := { s with asyncCounter := s.asyncCounter - 1, reading := none }.unref r.prop with hs'
  unfold State.relock
  simp only [← hs']
  split
  · have hpending : Counted { s' with hasPendingProperties := true } :=
      hreleased.same ⟨rfl, rfl, rfl, fun _ => rfl, rfl, rfl, rfl, rfl, rfl, rfl⟩
    exact hpending.same (.sent _)
  case isFalse hsame =>
    obtain ⟨hts, hdestroying⟩ := not_or.mp hsame
    have hmem : r.prop ∈ s'.properties :=
      List.mem_of_getElem? (h.index r ⟨hr, not_not.mp hts, Bool.eq_false_iff.mpr hdestroying⟩)
    have hpos : 0 < (s'.heap r.prop).refcount :=
      hreleased.pos (hreleased.allocated _ hmem) (State.holders_pos_of_mem hmem)
    simp only [hpos, decide_true, Bool.not_true, Bool.or_false]
    have hnew (b : Bool) : Counted { s' with newPropertyEvents := b } :=
      hreleased.same ⟨rfl, rfl, rfl, fun _ => rfl, rfl, rfl, rfl, rfl, rfl, rfl⟩
    exact ((hnew _).same (.modify _ r.prop (f := fun x => State.store x val) fun _ => rfl)).walk
      rfl hgone rfl

/-! ## The client -/

/-- The client lets go of the event that it was given last. -/
theorem Counted.letGo (h : Counted s) :
    Counted { s.curProperty.elim s s.unref with curProperty := none } := by
  cases hcur : s.curProperty with
  | none =>
    rw [Option.elim_none, ← hcur]
    exact h
  | some p =>
    have hp : p < s.allocated := h.cur p hcur
    rw [Option.elim_some, unref_of_pos (h.pos hp (State.holders_pos_of_cur hcur))]
    refine ⟨h.nodup, h.allocated, by rintro _ ⟨⟩, fun q hq => ?_, h.read, h.index, h.async,
      fun hd => ⟨(h.destroyed hd).1, rfl⟩, h.gone, h.asserts⟩
    have hc := h.refcount q hq
    simp only [State.holders, hcur, Option.some.injEq] at hc
    by_cases hqp : p = q
    · subst hqp
      simp only [if_true] at hc
      simp only [State.modify, State.holders, Function.update_self, hc, reduceCtorEq, if_false]
      omega
    · rw [if_neg hqp] at hc
      simp only [State.modify, Function.update_of_ne (Ne.symm hqp), hc]
      rfl

/-- It takes hold of the event for the property. -/
theorem Counted.takeHold (h : Counted s) (hcur : s.curProperty = none) (hp : p ∈ s.properties) :
    Counted ({ s with curProperty := some p }.ref p) := by
  have hdestroying : s.destroying ≠ true := fun hd =>
    List.ne_nil_of_mem hp (h.destroyed hd).1
  refine ⟨h.nodup, h.allocated, ?_, fun q hq => ?_, h.read, h.index, h.async,
    fun hd => absurd hd hdestroying, h.gone, h.asserts⟩
  · rintro _ ⟨⟩
    exact h.allocated p hp
  · have hc := h.refcount q hq
    simp only [State.holders, hcur, reduceCtorEq, if_false] at hc
    by_cases hqp : p = q
    · subst hqp
      simp only [State.ref, State.modify, State.holders, Function.update_self, hc, if_true]
      omega
    · simp only [State.ref, State.modify, Function.update_of_ne (Ne.symm hqp), hc, State.holders,
        Option.some.injEq, if_neg hqp]
      rfl

theorem Counted.give (h : Counted s) (hp : p ∈ s.properties) : Counted (s.give p) := by
  have hret : Counted (s.modify p fun x => { x with valueRetTs := x.valueTs }) :=
    h.same (.modify s p fun _ => rfl)
  set s' := s.modify p fun x => { x with valueRetTs := x.valueTs } with hs'
  have hmem : p ∈ (s'.curProperty.elim s' s'.unref).properties := by
    cases s'.curProperty <;> exact hp
  have hheld := hret.letGo.takeHold (p := p) rfl hmem
  unfold State.give
  exact hheld.same ⟨rfl, rfl, rfl, fun _ => rfl, rfl, rfl, rfl, rfl, rfl, rfl⟩

theorem Counted.seek {ps : List Nat} (h : Counted s) (hps : ps ⊆ s.properties) :
    Counted (s.seek ps).1 := by
  induction ps generalizing s with
  | nil => exact h
  | cons p ps ih =>
    obtain ⟨hp, hps⟩ := List.cons_subset.mp hps
    have hnext : Counted { s with curPropertyIndex := s.curPropertyIndex + 1 } :=
      h.same ⟨rfl, rfl, rfl, fun _ => rfl, rfl, rfl, rfl, rfl, rfl, rfl⟩
    unfold State.seek
    dsimp only
    split
    · exact hnext.give hp
    · exact ih hnext hps

theorem State.seek_properties (s : State φ V) (ps : List Nat) :
    (s.seek ps).1.properties = s.properties := by
  induction ps generalizing s with
  | nil => rfl
  | cons p ps ih =>
    unfold seek
    dsimp only
    split
    · cases hcur : s.curProperty <;> simp [give, modify, ref, unref]
    · rw [ih]

theorem Counted.look (h : Counted s) : Counted s.look := by
  have hgen : Counted s.genPropertyChangeEvent.1 := by
    unfold State.genPropertyChangeEvent
    split
    · have hfirst := h.seek (List.drop_subset s.curPropertyIndex s.properties)
      have hprops := s.seek_properties (s.properties.drop s.curPropertyIndex)
      generalize s.seek (s.properties.drop s.curPropertyIndex) = first at hfirst hprops
      obtain ⟨s', found⟩ := first
      dsimp only at hfirst hprops ⊢
      split
      · exact hfirst
      split
      · have hagain : Counted { s' with newPropertyEvents := false, curPropertyIndex := 0 } :=
          hfirst.same ⟨rfl, rfl, rfl, fun _ => rfl, rfl, rfl, rfl, rfl, rfl, rfl⟩
        exact hagain.seek (List.Subset.refl _)
      · exact hfirst
    · exact h
  unfold State.look
  exact hgen.same ⟨rfl, rfl, rfl, fun _ => rfl, rfl, rfl, rfl, rfl, rfl, rfl⟩

/-! ## The array -/

theorem Counted.observe {table : Table} {name : Nat} {userdata : UInt64} {format : Option φ}
    (h : Counted s) (hdestroying : s.destroying = false) :
    Counted (s.observe table name userdata format) := by
  have hne (q : Nat) (hq : q < s.allocated) : q ≠ s.allocated := Nat.ne_of_lt hq
  refine ⟨?_, fun q hq => ?_, fun q hq => ?_, fun q hq => ?_, fun r hr => ?_, ?_, h.async, ?_,
    h.gone, h.asserts⟩
  · exact List.nodup_append.mpr ⟨h.nodup, List.nodup_singleton _, fun q hq r hr => by
      rw [List.mem_singleton.mp hr]
      exact hne q (h.allocated q hq)⟩
  · rcases List.mem_append.mp hq with hq | hq
    · exact Nat.lt_succ_of_lt (h.allocated q hq)
    · rw [List.mem_singleton.mp hq]
      exact Nat.lt_succ_self _
  · exact Nat.lt_succ_of_lt (h.cur q hq)
  · rcases Nat.lt_succ_iff_lt_or_eq.mp hq with hq | rfl
    · simp only [State.observe, State.holders, Function.update_of_ne (hne q hq), h.refcount q hq,
        List.mem_append, List.mem_singleton, hne q hq, or_false]
      rfl
    · have hmem : s.allocated ∉ s.properties := fun hq => hne _ (h.allocated _ hq) rfl
      have hcur : s.curProperty ≠ some s.allocated := fun hq => hne _ (h.cur _ hq) rfl
      have hread : s.reading.map Reading.prop ≠ some s.allocated := fun hq => by
        obtain ⟨r, hr, hp⟩ := Option.map_eq_some_iff.mp hq
        exact hne _ (h.read r hr).1 hp
      simp [State.observe, State.holders, hcur, hread]
  · obtain ⟨hp, hts⟩ := h.read r hr
    exact ⟨Nat.lt_succ_of_lt hp, Nat.le_succ_of_le hts⟩
  · rintro r ⟨hr, hts, -⟩
    have := (h.read r hr).2
    simp only [State.observe] at hts
    omega
  · intro hd
    simp [State.observe, hdestroying] at hd

/-- Some of the properties are not observed any more. -/
theorem Counted.remove {removed kept : List Nat} (h : Counted s) (hnodup : removed.Nodup)
    (hkept : kept.Nodup) (hmem : ∀ p, p ∈ s.properties ↔ p ∈ removed ∨ p ∈ kept)
    (hdisjoint : removed.Disjoint kept) {ts index : Nat} (hts : s.propertiesChangeTs < ts) :
    Counted { s.unrefAll removed with
      properties := kept
      propertiesChangeTs := ts
      curPropertyIndex := index } := by
  have hin (p : Nat) (hp : p ∈ removed) : p ∈ s.properties := (hmem p).mpr (.inl hp)
  rw [unrefAll_of_pos hnodup fun p hp =>
    h.pos (h.allocated p (hin p hp)) (State.holders_pos_of_mem (hin p hp))]
  refine ⟨hkept, fun p hp => h.allocated p ((hmem p).mpr (.inr hp)), h.cur, fun p hp => ?_,
    fun r hr => ?_, ?_, h.async, fun hd => ⟨?_, (h.destroyed hd).2⟩, h.gone, h.asserts⟩
  · have hc := h.refcount p hp
    by_cases hremoved : p ∈ removed
    · have hnot : p ∉ kept := fun hk => hdisjoint hremoved hk
      simp only [State.holders, if_pos (hin p hremoved)] at hc
      simp only [State.holders, if_pos hremoved, if_neg hnot, hc]
      omega
    · have hiff : p ∈ s.properties ↔ p ∈ kept := by
        rw [hmem]
        exact or_iff_right hremoved
      simp only [State.holders, hiff] at hc
      simp only [State.holders, if_neg hremoved, hc]
  · obtain ⟨hp, hle⟩ := h.read r hr
    exact ⟨hp, Nat.le_of_lt (Nat.lt_of_le_of_lt hle hts)⟩
  · rintro r ⟨hr, hcurTs, -⟩
    have hle := (h.read r hr).2
    dsimp only at hcurTs
    omega
  · refine List.eq_nil_iff_forall_not_mem.mpr fun p hp => ?_
    have := (hmem p).mpr (.inr hp)
    rw [(h.destroyed hd).1] at this
    exact List.not_mem_nil this

theorem Counted.unobserve {userdata : UInt64} (h : Counted s) :
    Counted (s.unobserve userdata) := by
  unfold State.unobserve
  dsimp only
  split
  · exact h
  case isFalse hremoved =>
    have hlength : 0 < _ := List.length_pos_iff.mpr hremoved
    refine h.remove ((List.nodup_reverse.mpr h.nodup).filter _) (h.nodup.filter _) (fun p => ?_)
      (fun p hr hk => ?_) (by omega)
    · by_cases hid : (s.heap p).replyId = userdata <;> simp [hid]
    · simp only [List.mem_filter, decide_eq_true_eq] at hr hk
      exact hk.2 hr.2

/-- It is freed, which nobody comes back from. -/
theorem Counted.destroying (h : Counted s) (hprops : s.properties = [])
    (hcur : s.curProperty = none) : Counted { s with destroying := true } :=
  ⟨h.nodup, h.allocated, h.cur, h.refcount, h.read, by rintro _ ⟨-, -, ⟨⟩⟩, h.async,
    fun _ => ⟨hprops, hcur⟩, fun hg => ⟨rfl, (h.gone hg).2⟩, h.asserts⟩

theorem Counted.destroy (h : Counted s) : Counted s.destroy := by
  have hremoved : Counted { s.unrefAll s.properties with
      properties := []
      propertiesChangeTs := s.propertiesChangeTs + 1 } :=
    h.remove h.nodup List.nodup_nil (by simp) (by simp) (Nat.lt_succ_self _)
  set s' : State φ V := { s.unrefAll s.properties with
    properties := []
    propertiesChangeTs := s.propertiesChangeTs + 1 } with hs'
  have hfreed : Counted { s'.curProperty.elim s' s'.unref with
      curProperty := none
      destroying := true } := by
    refine hremoved.letGo.destroying ?_ rfl
    cases s'.curProperty <;> rfl
  have heq : s.destroy = { s'.curProperty.elim s' s'.unref with
      curProperty := none
      destroying := true } := by
    unfold State.destroy
    simp only [hs']
    cases (s.unrefAll s.properties).curProperty <;> rfl
  rw [heq]
  exact hfreed

/-- Nobody has a reference any more. -/
theorem Counted.free (h : Counted s) (hdestroying : s.destroying = true)
    (hasync : s.asyncCounter = 0) : Counted { s with gone := true } := by
  refine ⟨h.nodup, h.allocated, h.cur, h.refcount, h.read, h.index, h.async, h.destroyed,
    fun _ => ⟨hdestroying, ?_⟩, h.asserts⟩
  have hread := h.async
  rw [hasync] at hread
  cases hr : s.reading with
  | none => rfl
  | some r => simp [hr] at hread

theorem Same.announce (s : State φ V) (changed : Nat → Bool) : Same s (s.announce changed) := by
  refine ⟨rfl, rfl, rfl, fun p => ?_, rfl, rfl, rfl, rfl, rfl, rfl⟩
  simp only [State.announce]
  split <;> rfl

theorem counted_of_step [DecidableEq V] {table : Table} {l : Label φ V}
    (hstep : step table s l = some s') (h : Counted s) : Counted s' := by
  have hsame {t : State φ V} (hs : Same s t) : Counted t := h.same hs
  cases l <;> simp only [step, Option.ite_none_right_eq_some, Option.ite_none_left_eq_some,
    Option.some.injEq] at hstep
  case mpInitialize =>
    subst hstep
    exact hsame ⟨rfl, rfl, rfl, fun _ => rfl, rfl, rfl, rfl, rfl, rfl, rfl⟩
  case drift =>
    subst hstep
    exact hsame ⟨rfl, rfl, rfl, fun _ => rfl, rfl, rfl, rfl, rfl, rfl, rfl⟩
  case change =>
    obtain ⟨-, rfl⟩ := hstep
    exact hsame (.announce s _)
  case event =>
    obtain ⟨-, rfl⟩ := hstep
    unfold State.event
    split
    · exact h
    · exact hsame (.announce s _)
  case observe =>
    obtain ⟨hd, rfl⟩ := hstep
    exact h.observe (Bool.eq_false_iff.mpr hd)
  case unobserve =>
    obtain ⟨-, rfl⟩ := hstep
    exact h.unobserve
  case send =>
    obtain ⟨⟨hgone, -, hread⟩, rfl⟩ := hstep
    have hstart : Counted { s with hasPendingProperties := false } :=
      hsame ⟨rfl, rfl, rfl, fun _ => rfl, rfl, rfl, rfl, rfl, rfl, rfl⟩
    exact hstart.walk hread (by simpa using hgone) List.drop_zero
  case read =>
    split at hstep
    case h_1 r hr =>
      simp only [Option.ite_none_right_eq_some, Option.some.injEq] at hstep
      obtain ⟨-, rfl⟩ := hstep
      exact h.found hr
    case h_2 => cases hstep
  case relock =>
    split at hstep
    case h_1 hr =>
      cases hstep
      exact h.relock hr
    case h_2 => cases hstep
  case wait =>
    obtain ⟨-, rfl⟩ := hstep
    exact h.look
  case waiter =>
    split at hstep
    case h_1 =>
      cases hstep
      exact h.look
    case h_2 =>
      cases hstep
      unfold State.waitWakeup
      split <;> exact hsame ⟨rfl, rfl, rfl, fun _ => rfl, rfl, rfl, rfl, rfl, rfl, rfl⟩
    case h_3 =>
      cases hstep
      exact hsame ⟨rfl, rfl, rfl, fun _ => rfl, rfl, rfl, rfl, rfl, rfl, rfl⟩
    all_goals cases hstep
  case other =>
    split at hstep <;> cases hstep
    exact hsame ⟨rfl, rfl, rfl, fun _ => rfl, rfl, rfl, rfl, rfl, rfl, rfl⟩
  case wakeWaiter =>
    split at hstep <;> cases hstep
    exact hsame ⟨rfl, rfl, rfl, fun _ => rfl, rfl, rfl, rfl, rfl, rfl, rfl⟩
  case settle =>
    obtain ⟨-, rfl⟩ := hstep
    exact hsame ⟨rfl, rfl, rfl, fun _ => rfl, rfl, rfl, rfl, rfl, rfl, rfl⟩
  case settler =>
    unfold State.settler at hstep
    split at hstep <;> cases hstep
    · split <;> exact hsame ⟨rfl, rfl, rfl, fun _ => rfl, rfl, rfl, rfl, rfl, rfl, rfl⟩
    · exact hsame ⟨rfl, rfl, rfl, fun _ => rfl, rfl, rfl, rfl, rfl, rfl, rfl⟩
    · exact hsame ⟨rfl, rfl, rfl, fun _ => rfl, rfl, rfl, rfl, rfl, rfl, rfl⟩
  case settlerTimeout | wakeSettler =>
    split at hstep <;> cases hstep <;>
      exact hsame ⟨rfl, rfl, rfl, fun _ => rfl, rfl, rfl, rfl, rfl, rfl, rfl⟩
  case destroy =>
    obtain ⟨-, rfl⟩ := hstep
    exact h.destroy
  case free =>
    obtain ⟨⟨hd, -, hasync⟩, rfl⟩ := hstep
    exact h.free hd hasync

theorem counted_of_init [DecidableEq V] {table : Table} (h : (observing φ V table).init s) :
    Counted s := by
  obtain ⟨heap, world, rfl⟩ := h
  exact ⟨List.nodup_nil, by simp, by rintro _ ⟨⟩, fun p hp => absurd hp (Nat.not_lt_zero p),
    by rintro _ ⟨⟩, by rintro _ ⟨⟨⟩, -⟩, rfl, by rintro ⟨⟩, by rintro ⟨⟩, rfl⟩

theorem counted_of_reachable [DecidableEq V] {table : Table}
    (h : (observing φ V table).Reachable s) : Counted s :=
  h.invariant (fun _ => counted_of_init) fun _ _ _ hc _ hstep => counted_of_step hstep hc

/-- A property lives as long as the array, the last event or the core refers to it, and a handle as
    long as the core may come back to it. -/
theorem refcount_of_reachable [DecidableEq V] {table : Table}
    (h : (observing φ V table).Reachable s) :
    s.failed = false ∧
      (∀ p, p < s.allocated → (s.heap p).refcount = s.holders p) ∧
      (s.gone = true → s.reading = none ∧ ∀ p, p < s.allocated → (s.heap p).refcount = 0) := by
  have hc := counted_of_reachable h
  refine ⟨hc.asserts, hc.refcount, fun hg => ?_⟩
  obtain ⟨hd, hread⟩ := hc.gone hg
  obtain ⟨hprops, hcur⟩ := hc.destroyed hd
  refine ⟨hread, fun p hp => ?_⟩
  rw [hc.refcount p hp]
  simp [State.holders, hprops, hcur, hread]

/-- The client unobserves a property while the core reads it. -/
theorem refcount_while_reading : ∃ s : State Unit ℕ, s.properties = [] ∧ (s.heap 0).refcount = 1 ∧
    (s.heap 0).refcount = s.holders 0 := by
  obtain ⟨s, hs, htest⟩ := Machine.Reachable.exec_any
    (.init ⟨fun _ => ⟨0, 0, none, 0, 0, 0, none, 0⟩, fun _ _ => none, rfl⟩ :
      (observing Unit ℕ ⟨id, fun _ => 0⟩).Reachable _)
    [.observe 0 7 (some ()), .mpInitialize, .send, .unobserve 7]
    (p := fun s => decide (s.properties = [] ∧ (s.heap 0).refcount = 1 ∧ 0 < s.allocated))
    (by decide +kernel)
  obtain ⟨hprops, hcount, halloc⟩ := of_decide_eq_true htest
  exact ⟨s, hprops, hcount, (refcount_of_reachable hs).2.1 0 halloc⟩

end Observe
