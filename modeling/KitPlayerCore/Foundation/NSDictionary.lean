-- SUMMARY: What the player uses of `NSDictionary`: its keys in some order, and `valueForKey:`.
import KitPlayerCore.Foundation.NSString
import Mathlib.Data.List.Nodup

/-!
# NSDictionary

A dictionary from strings to strings. Foundation leaves the order of `allKeys`
open, so a value of `NSDictionary` fixes one order, and a statement about a
dictionary is made of every value with the same entries.
-/

/-- A dictionary of strings, enumerated in the order of `entries`. -/
structure NSDictionary where
  entries : List (NSString × NSString)
  nodup : (entries.map Prod.fst).Nodup
  /-- What `valueForKey:` of the superclass answers, `none` for `nil`. -/
  inherited : NSString → Option NSString := fun _ => none

namespace NSDictionary

def allKeys (dic : NSDictionary) : List NSString := dic.entries.map Prod.fst

def objectForKey (dic : NSDictionary) (key : NSString) : Option NSString := dic.entries.lookup key

/-- `valueForKey:` passes a key that starts with `@`, without the `@`, to the
    superclass. -/
def valueForKey (dic : NSDictionary) (key : NSString) : Option NSString :=
  match key.toList with
  | '@' :: cs => dic.inherited (.ofList cs)
  | _ => dic.objectForKey key

/-- The dictionaries differ in the order of their keys and in what their
    superclass answers. -/
def SameEntries (dic dic' : NSDictionary) : Prop := dic.entries.Perm dic'.entries

/-- The key does not go to the superclass. -/
def Plain (key : NSString) : Prop := key.toList.head? ≠ some '@'

instance (key : NSString) : Decidable (Plain key) :=
  inferInstanceAs (Decidable (key.toList.head? ≠ some '@'))

/-! ## Looking up -/

theorem objectForKey_of_mem {dic : NSDictionary} {key value : NSString}
    (h : (key, value) ∈ dic.entries) : dic.objectForKey key = some value := by
  obtain ⟨entries, nodup, _⟩ := dic
  unfold objectForKey
  induction entries with
  | nil => cases h
  | cons e es ih =>
    obtain ⟨hne, hes⟩ := List.nodup_cons.mp nodup
    rcases List.mem_cons.mp h with rfl | h
    · exact List.lookup_cons_self
    · have hkey : key ≠ e.1 := by
        rintro rfl
        exact hne (List.mem_map.mpr ⟨_, h, rfl⟩)
      rw [List.lookup_cons, beq_false_of_ne hkey]
      exact ih hes h

theorem valueForKey_plain {dic : NSDictionary} {key : NSString} (h : Plain key) :
    dic.valueForKey key = dic.objectForKey key := by
  unfold valueForKey
  split
  · rename_i hcs
    exact absurd (by rw [hcs]; rfl) h
  · rfl

theorem valueForKey_of_mem {dic : NSDictionary} {key value : NSString} (hplain : Plain key)
    (h : (key, value) ∈ dic.entries) : dic.valueForKey key = some value := by
  rw [valueForKey_plain hplain, objectForKey_of_mem h]

/-! ## Variants -/

/-- The dictionary with its entries in another order. -/
def reorder (dic : NSDictionary) (entries : List (NSString × NSString))
    (h : dic.entries.Perm entries) : NSDictionary where
  entries := entries
  nodup := (h.map Prod.fst).nodup_iff.mp dic.nodup
  inherited := dic.inherited

/-- The dictionary where its superclass answers every key with `value`. -/
def answering (dic : NSDictionary) (value : NSString) : NSDictionary :=
  { dic with inherited := fun _ => some value }

theorem valueForKey_answering {dic : NSDictionary} {key value : NSString} (hplain : ¬ Plain key) :
    (dic.answering value).valueForKey key = some value := by
  unfold valueForKey
  split
  · rfl
  · rename_i hcs
    have hhead : key.toList.head? = some '@' := not_not.mp hplain
    obtain ⟨cs, hkey⟩ := List.head?_eq_some_iff.mp hhead
    exact absurd hkey (hcs cs)

end NSDictionary
