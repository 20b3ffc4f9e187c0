-- SUMMARY: Ring buffers: an array of fixed size of which a part, that may wrap around its end, holds a queue.
import Mathlib.Data.Nat.ModEq
import Mathlib.Data.List.Range

/-!
# Ring buffers

The queue starts at the entry `first` and is `count` entries long. An entry outside of it
holds whatever was left there, and nothing depends on that.
-/

namespace Container

universe u

/-- An array of `size` entries with the queue that it holds. -/
structure RingBuffer (α : Type u) (size : ℕ) where
  entries : Fin size → α
  first : ℕ
  count : ℕ
  first_lt : first < size
  count_le : count ≤ size

namespace RingBuffer

variable {α : Type u} {size : ℕ} {b : RingBuffer α size} {a : α}

/-- The entry that is `i` places behind the first one. -/
def slot (b : RingBuffer α size) (i : ℕ) : Fin size :=
  ⟨(b.first + i) % size, Nat.mod_lt _ (Nat.zero_lt_of_lt b.first_lt)⟩

/-- The queue, the first one first. -/
def toList (b : RingBuffer α size) : List α :=
  (List.range b.count).map fun i => b.entries (b.slot i)

/-- No queue, in an array that may hold anything. -/
def empty (entries : Fin size → α) (h : 0 < size) : RingBuffer α size where
  entries := entries
  first := 0
  count := 0
  first_lt := h
  count_le := Nat.zero_le _

/-- Write behind the last one. -/
def push (b : RingBuffer α size) (a : α) (h : b.count < size) : RingBuffer α size :=
  { b with
    entries := Function.update b.entries (b.slot b.count) a
    count := b.count + 1
    count_le := h }

/-- Read the first one. -/
def pop (b : RingBuffer α size) (_ : 0 < b.count) : α × RingBuffer α size :=
  (b.entries ⟨b.first, b.first_lt⟩,
    { b with
      first := (b.first + 1) % size
      count := b.count - 1
      first_lt := Nat.mod_lt _ (Nat.zero_lt_of_lt b.first_lt)
      count_le := (Nat.sub_le _ _).trans b.count_le })

/-- What lies at different places of the queue lies in different entries. -/
theorem slot_injective {i j : ℕ} (hi : i < size) (hj : j < size) (h : b.slot i = b.slot j) :
    i = j := by
  have hmod : b.first + i ≡ b.first + j [MOD size] := congrArg Fin.val h
  exact (Nat.ModEq.add_left_cancel' _ hmod).eq_of_lt_of_lt hi hj

@[simp] theorem slot_zero : b.slot 0 = ⟨b.first, b.first_lt⟩ :=
  Fin.ext (Nat.mod_eq_of_lt b.first_lt)

@[simp] theorem length_toList : b.toList.length = b.count := by
  simp [toList]

theorem toList_eq_nil_iff : b.toList = [] ↔ b.count = 0 := by
  rw [← List.length_eq_zero_iff, length_toList]

@[simp] theorem toList_empty {entries : Fin size → α} (h : 0 < size) :
    (empty entries h).toList = [] := rfl

@[simp] theorem count_push (h : b.count < size) : (b.push a h).count = b.count + 1 := rfl

@[simp] theorem count_pop (h : 0 < b.count) : (b.pop h).2.count = b.count - 1 := rfl

theorem toList_push (h : b.count < size) : (b.push a h).toList = b.toList ++ [a] := by
  have hslot (i : ℕ) : (b.push a h).slot i = b.slot i := rfl
  have hold (i : ℕ) (hi : i ∈ List.range b.count) :
      (b.push a h).entries ((b.push a h).slot i) = b.entries (b.slot i) := by
    have hlt := List.mem_range.mp hi
    have hne : b.slot i ≠ b.slot b.count := fun heq =>
      hlt.ne (slot_injective (hlt.trans h) h heq)
    rw [hslot]
    exact Function.update_of_ne hne _ _
  have hnew : (b.push a h).entries ((b.push a h).slot b.count) = a := by
    rw [hslot]
    exact Function.update_self _ _ _
  rw [toList, count_push, List.range_succ, List.map_append, List.map_congr_left hold,
    List.map_singleton, hnew, toList]

theorem toList_pop (h : 0 < b.count) : b.toList = (b.pop h).1 :: (b.pop h).2.toList := by
  have hslot (i : ℕ) : (b.pop h).2.slot i = b.slot (i + 1) := by
    refine Fin.ext ?_
    change ((b.first + 1) % size + i) % size = (b.first + (i + 1)) % size
    rw [Nat.mod_add_mod]
    congr 1
    omega
  obtain ⟨n, hn⟩ := Nat.exists_eq_succ_of_ne_zero h.ne'
  rw [toList, hn, List.range_succ_eq_map, List.map_cons, List.map_map, slot_zero]
  congr 1
  rw [toList, count_pop, hn, Nat.succ_sub_one]
  exact List.map_congr_left fun i _ => congrArg b.entries (hslot i).symm

/-- A full array is not empty, and has room for one more once it is popped. -/
theorem room_of_full (h : ¬ b.count < size) : ∃ hpos : 0 < b.count, (b.pop hpos).2.count < size := by
  have hfirst := b.first_lt
  have hcount := b.count_le
  exact ⟨by omega, by rw [count_pop]; omega⟩

/-- Write behind the last one, over the first one. -/
def pushOver (b : RingBuffer α size) (a : α) (h : ¬ b.count < size) : RingBuffer α size :=
  (b.pop (room_of_full h).1).2.push a (room_of_full h).2

@[simp] theorem count_pushOver (h : ¬ b.count < size) : (b.pushOver a h).count = b.count := by
  have hpos := (room_of_full h).1
  rw [pushOver, count_push, count_pop]
  omega

theorem toList_pushOver (h : ¬ b.count < size) :
    (b.pushOver a h).toList = b.toList.tail ++ [a] := by
  rw [pushOver, toList_push, toList_pop (room_of_full h).1, List.tail_cons]

end RingBuffer

end Container
