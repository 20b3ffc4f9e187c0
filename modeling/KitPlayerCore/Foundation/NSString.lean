-- SUMMARY: What the player uses of `NSString`: UTF-8, trimming, formats, and leading numbers.
import Mathlib.Algebra.Order.BigOperators.Group.List
import Mathlib.Data.List.DropRight
import Mathlib.Data.String.Basic

/-!
# NSString

An `NSString` is a sequence of Unicode characters. The player trims strings,
formats them, reads a number off their front, and hands them to mpv as C
strings, which end at their first NUL.
-/

abbrev NSString := String

/-- The bytes in front of the terminating NUL. -/
abbrev CString := List UInt8

namespace NSString

/-! ## UTF-8 -/

/-- All bytes of the string in UTF-8. -/
def utf8 (s : NSString) : List UInt8 := s.toList.flatMap String.utf8EncodeChar

/-- `UTF8String`, as the C code that receives it reads it. -/
def utf8String (s : NSString) : CString := s.utf8.takeWhile (· ≠ 0)

/-- `initWithCString:encoding:` for UTF-8, which answers `nil` for other bytes. -/
def initWithCString (bytes : CString) : Option NSString :=
  bytes.toByteArray.utf8Decode?.map fun cs => .ofList cs.toList

@[simp] theorem initWithCString_utf8 (s : NSString) : initWithCString s.utf8 = some s := by
  have hbytes : s.utf8.toByteArray = s.toList.utf8Encode := rfl
  rw [initWithCString, hbytes, List.utf8Decode?_utf8Encode, Option.map_some, List.toList_toArray,
    String.ofList_toList]

/-! ## Trimming -/

/-- `whitespaceAndNewlineCharacterSet`: the tab, U+000A to U+000D, U+0085, and
    the general categories Zs, Zl and Zp. -/
def whitespaceAndNewline (c : Char) : Bool :=
  let n := c.toNat
  (0x09 ≤ n && n ≤ 0x0D) || n == 0x85 || n == 0x20 || n == 0xA0 || n == 0x1680 ||
    (0x2000 ≤ n && n ≤ 0x200A) || n == 0x2028 || n == 0x2029 || n == 0x202F || n == 0x205F ||
    n == 0x3000

/-- `stringByTrimmingCharactersInSet:` with the set above. -/
def trim (s : NSString) : NSString :=
  .ofList ((s.toList.dropWhile whitespaceAndNewline).rdropWhile whitespaceAndNewline)

/-- Trimming keeps every character that is not white space. -/
theorem mem_trim {c : Char} {s : NSString} (hc : c ∈ s.toList)
    (hspace : whitespaceAndNewline c = false) : c ∈ s.trim.toList := by
  have hdrop (cs : List Char) (hc : c ∈ cs) : c ∈ cs.dropWhile whitespaceAndNewline := by
    rw [← List.takeWhile_append_dropWhile (p := whitespaceAndNewline) (l := cs)] at hc
    rcases List.mem_append.mp hc with htake | hdrop
    · have hspace' := List.mem_takeWhile_imp htake
      rw [hspace] at hspace'
      cases hspace'
    · exact hdrop
  rw [trim, String.toList_ofList, List.rdropWhile, List.mem_reverse]
  exact hdrop _ (List.mem_reverse.mpr (hdrop _ hc))

/-! ## Formats -/

/-- `stringWithFormat:` for a format whose only conversion is `%@`, applied to
    string arguments. -/
def withFormat : List Char → List NSString → List Char
  | '%' :: '@' :: fmt, arg :: args => arg.toList ++ withFormat fmt args
  | c :: fmt, args => c :: withFormat fmt args
  | [], _ => []

/-! ## Leading numbers -/

/-- The value of the digits, most significant first. -/
def digitsValue (ds : List Char) : Nat :=
  ds.foldl (fun n d => 10 * n + (d.toNat - '0'.toNat)) 0

/-- `intValue`: the decimal number the string starts with, 0 if there is none,
    clamped to the range of `int`. -/
def intValue (s : NSString) : Int :=
  let cs := s.toList.dropWhile whitespaceAndNewline
  let value (ds : List Char) : Int := digitsValue (ds.takeWhile Char.isDigit)
  let n := match cs with
    | '-' :: ds => - value ds
    | '+' :: ds => value ds
    | ds => value ds
  max (-2 ^ 31) (min n (2 ^ 31 - 1))

theorem intValue_lt (s : NSString) : s.intValue < 2 ^ 31 := by
  refine max_lt (by decide) ?_
  exact lt_of_le_of_lt (min_le_right _ _) (by decide)

theorem toNat_of_isDigit {d : Char} (h : d.isDigit = true) : 48 ≤ d.toNat ∧ d.toNat ≤ 57 := by
  simpa [Char.isDigit, UInt32.le_iff_toNat_le] using h

theorem isDigit_of_mem_repr {n : Nat} {d : Char} (h : d ∈ n.repr.toList) : d.isDigit = true :=
  Nat.isDigit_of_mem_toDigits (by decide) (by decide) (Nat.toList_repr ▸ h)

theorem digitsValue_toDigits (n : Nat) : digitsValue (Nat.toDigits 10 n) = n :=
  Nat.ofDigitChars_ten_toDigits

/-- A number is read back, cut off at the range of `int`. -/
theorem intValue_repr_eq_min (n : Nat) : intValue n.repr = min n (2 ^ 31 - 1) := by
  have hdigit {c : Char} (hc : c ∈ Nat.toDigits 10 n) : c.isDigit = true :=
    isDigit_of_mem_repr (Nat.toList_repr ▸ hc)
  obtain ⟨d, ds, hds⟩ := List.exists_cons_of_ne_nil (Nat.toDigits_ne_nil (n := n) (b := 10))
  have hall : (d :: ds).takeWhile Char.isDigit = d :: ds := by
    rw [← hds]
    exact List.takeWhile_eq_self_iff.mpr fun c hc => hdigit hc
  have hd : d.isDigit = true := by
    have hmem : d ∈ Nat.toDigits 10 n := by simp [hds]
    exact hdigit hmem
  have hspace : whitespaceAndNewline d = false := by
    have hrange := toNat_of_isDigit hd
    simp [whitespaceAndNewline]
    omega
  have hminus : d ≠ '-' := by
    rintro rfl
    cases hd
  have hplus : d ≠ '+' := by
    rintro rfl
    cases hd
  have hvalue : digitsValue (d :: ds) = n := by rw [← hds, digitsValue_toDigits]
  have hdrop : (d :: ds).dropWhile whitespaceAndNewline = d :: ds := by
    rw [List.dropWhile_cons, if_neg (by simp [hspace])]
  have hunsigned : intValue n.repr =
      max (-2 ^ 31) (min ((digitsValue ((d :: ds).takeWhile Char.isDigit) : Nat) : Int)
        (2 ^ 31 - 1)) := by
    simp only [intValue, Nat.toList_repr, hds, hdrop]
    split
    · rename_i heq
      exact absurd (List.cons.inj heq).1 hminus
    · rename_i heq
      exact absurd (List.cons.inj heq).1 hplus
    · rfl
  rw [hunsigned, hall, hvalue]
  omega

theorem intValue_repr {n : Nat} (h : n < 2 ^ 31) : intValue n.repr = n := by
  rw [intValue_repr_eq_min]
  omega

/-- The unsigned number `ds[.ds][e[±]ds]` a string starts with. -/
def unsignedDouble (cs : List Char) : Float :=
  let whole := cs.takeWhile Char.isDigit
  let rest := cs.dropWhile Char.isDigit
  let fraction := if rest.head? = some '.' then rest.tail.takeWhile Char.isDigit else []
  let rest := if rest.head? = some '.' then rest.tail.dropWhile Char.isDigit else rest
  let exponent : Int := match rest with
    | 'e' :: '-' :: ds | 'E' :: '-' :: ds => - digitsValue (ds.takeWhile Char.isDigit)
    | 'e' :: '+' :: ds | 'E' :: '+' :: ds => digitsValue (ds.takeWhile Char.isDigit)
    | 'e' :: ds | 'E' :: ds => digitsValue (ds.takeWhile Char.isDigit)
    | _ => 0
  let scale := exponent - fraction.length
  .ofScientific (digitsValue (whole ++ fraction) * 10 ^ scale.toNat) true (-scale).toNat

/-- `doubleValue`: the decimal number the string starts with, 0 if there is none. -/
def doubleValue (s : NSString) : Float :=
  match s.toList.dropWhile whitespaceAndNewline with
  | '-' :: cs => - unsignedDouble cs
  | '+' :: cs => unsignedDouble cs
  | cs => unsignedDouble cs

/-! ## The bytes of a string -/

section ascii

variable {a c : Char} {s t : NSString}

theorem toNat_toUInt8 (h : a.toNat ≤ 127) : a.toUInt8.toNat = a.toNat := by
  have hmod : a.toUInt8.toNat = a.toNat % 2 ^ 8 := UInt32.toNat_toUInt8 a.val
  rw [hmod, Nat.mod_eq_of_lt (by omega)]

theorem utf8EncodeChar_ascii (h : a.toNat ≤ 127) : String.utf8EncodeChar a = [a.toUInt8] := by
  have hval : a.val.toNat ≤ 127 := h
  have hbyte : UInt8.ofNat a.val.toNat = a.toUInt8 := by
    apply UInt8.toNat.inj
    rw [toNat_toUInt8 h, UInt8.toNat_ofNat', Nat.mod_eq_of_lt (by omega)]
    rfl
  simp only [String.utf8EncodeChar, hval, if_true, hbyte]

/-- Every byte of a character that is not ASCII has its top bit set. -/
theorem le_of_mem_utf8EncodeChar (h : 127 < c.toNat) {b : UInt8}
    (hb : b ∈ String.utf8EncodeChar c) : 128 ≤ b.toNat := by
  have hval : ¬ c.val.toNat ≤ 127 := Nat.not_le.mpr h
  simp only [String.utf8EncodeChar, hval, if_false] at hb
  split at hb
  · simp at hb
    rcases hb with rfl | rfl <;> simp <;> omega
  · split at hb
    · simp at hb
      rcases hb with rfl | rfl | rfl <;> simp <;> omega
    · simp at hb
      rcases hb with rfl | rfl | rfl | rfl <;> simp <;> omega

/-- The byte of an ASCII character occurs in the bytes of no other character. -/
theorem mem_utf8EncodeChar (ha : a.toNat ≤ 127) : a.toUInt8 ∈ String.utf8EncodeChar c ↔ a = c := by
  constructor
  · intro h
    rcases Nat.lt_or_ge 127 c.toNat with hc | hc
    · have hge := le_of_mem_utf8EncodeChar hc h
      rw [toNat_toUInt8 ha] at hge
      omega
    · rw [utf8EncodeChar_ascii hc, List.mem_singleton] at h
      apply Char.toNat_inj.mp
      rw [← toNat_toUInt8 ha, ← toNat_toUInt8 hc, h]
  · rintro rfl
    rw [utf8EncodeChar_ascii ha]
    exact List.mem_singleton_self _

@[simp] theorem utf8_append : utf8 (s ++ t) = s.utf8 ++ t.utf8 := by
  simp [utf8]

theorem utf8_ascii {s : NSString} (h : ∀ c ∈ s.toList, c.toNat ≤ 127) :
    s.utf8 = s.toList.map Char.toUInt8 := by
  rw [utf8, List.map_eq_flatMap]
  exact List.flatMap_congr fun c hc => utf8EncodeChar_ascii (h c hc)

theorem utf8_injective (h : s.utf8 = t.utf8) : s = t := by
  have hbytes (s : NSString) : s.utf8.toByteArray = s.toByteArray := String.utf8Encode_toList
  rw [← String.toByteArray_inj, ← hbytes, ← hbytes, h]

theorem utf8_eq_nil : s.utf8 = [] ↔ s = "" :=
  ⟨fun h => utf8_injective (t := "") h, fun h => h ▸ rfl⟩

theorem mem_utf8 (ha : a.toNat ≤ 127) : a.toUInt8 ∈ s.utf8 ↔ a ∈ s.toList := by
  simp [utf8, mem_utf8EncodeChar ha]

theorem head?_utf8 (ha : a.toNat ≤ 127) :
    s.utf8.head? = some a.toUInt8 ↔ s.toList.head? = some a := by
  unfold utf8
  cases s.toList with
  | nil => simp
  | cons c cs =>
    rw [List.flatMap_cons, List.head?_append_of_ne_nil _ String.utf8EncodeChar_ne_nil]
    simp only [List.head?_cons, Option.some.injEq]
    constructor
    · intro h
      exact ((mem_utf8EncodeChar ha).mp (List.mem_of_head? h)).symm
    · rintro rfl
      rw [utf8EncodeChar_ascii ha, List.head?_cons]

theorem getLast?_utf8 (ha : a.toNat ≤ 127) :
    s.utf8.getLast? = some a.toUInt8 ↔ s.toList.getLast? = some a := by
  unfold utf8
  rcases List.eq_nil_or_concat s.toList with hs | ⟨cs, c, hs⟩
  · simp [hs]
  · rw [hs, List.concat_eq_append, List.flatMap_append, List.flatMap_singleton,
      List.getLast?_append_of_ne_nil _ String.utf8EncodeChar_ne_nil]
    simp only [List.getLast?_append, List.getLast?_singleton, Option.some_or, Option.some.injEq]
    constructor
    · intro h
      exact ((mem_utf8EncodeChar ha).mp (List.mem_of_getLast? h)).symm
    · rintro rfl
      rw [utf8EncodeChar_ascii ha, List.getLast?_singleton]

/-- ASCII characters that do not occur in the string, as bytes. -/
theorem utf8_avoids {cs : List Char} (hcs : cs.all fun c => c.toNat ≤ 127) :
    (∀ b ∈ s.utf8, b ∉ cs.map Char.toUInt8) ↔ ∀ c ∈ s.toList, c ∉ cs := by
  have hascii (c : Char) (hc : c ∈ cs) : c.toNat ≤ 127 := by simpa using List.all_eq_true.mp hcs c hc
  constructor
  · intro h c hc hmem
    exact h _ ((mem_utf8 (hascii c hmem)).mpr hc) (List.mem_map_of_mem hmem)
  · intro h b hb hmem
    obtain ⟨c, hc, rfl⟩ := List.mem_map.mp hmem
    exact h c ((mem_utf8 (hascii c hc)).mp hb) hc

theorem utf8_head_avoids {cs : List Char} (hcs : cs.all fun c => c.toNat ≤ 127) :
    (∀ b ∈ s.utf8.head?, b ∉ cs.map Char.toUInt8) ↔ ∀ c ∈ s.toList.head?, c ∉ cs := by
  have hascii (c : Char) (hc : c ∈ cs) : c.toNat ≤ 127 := by simpa using List.all_eq_true.mp hcs c hc
  constructor
  · intro h c hc hmem
    exact h _ ((head?_utf8 (hascii c hmem)).mpr hc) (List.mem_map_of_mem hmem)
  · intro h b hb hmem
    obtain ⟨c, hc, rfl⟩ := List.mem_map.mp hmem
    exact h c ((head?_utf8 (hascii c hc)).mp hb) hc

end ascii

/-- A string without NUL reaches the C code whole. -/
theorem utf8String_eq_utf8 {s : NSString} (h : '\x00' ∉ s.toList) : s.utf8String = s.utf8 := by
  have hbytes : (0 : UInt8) ∉ s.utf8 := (mem_utf8 (a := '\x00') (by decide)).not.mpr h
  apply List.takeWhile_eq_self_iff.mpr
  rintro b hb
  simp only [decide_eq_true_eq]
  rintro rfl
  exact hbytes hb

end NSString
