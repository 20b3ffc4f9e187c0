-- SUMMARY: The string that `formatParToStr:Format:` builds, as a list of fields with commas between them.
import KitPlayerCore.Core.Methods
import KitPlayerCore.Foundation.Separated

/-!
# Parameters

A dictionary is printed as one field for each key, and the fields are separated
by commas. What mpv reads is the bytes in front of the first NUL.
-/

namespace Core

open NSDictionary

/-- The format prints a key, `mid`, a value, and a comma. -/
def Formats (formatStr mid : String) : Prop :=
  ∀ key value, NSString.withFormat formatStr.toList [key, value] =
    (key ++ mid ++ value).toList ++ [',']

theorem formats_header : Formats "%@: %@," ": " := by
  intro key value
  have hformat : "%@: %@,".toList = ['%', '@', ':', ' ', '%', '@', ','] := rfl
  simp [hformat, NSString.withFormat]

theorem formats_avOption : Formats "%@=%@," "=" := by
  intro key value
  have hformat : "%@=%@,".toList = ['%', '@', '=', '%', '@', ','] := rfl
  simp [hformat, NSString.withFormat]

/-- What is printed for the key. -/
def field (mid : String) (dic : NSDictionary) (key : NSString) : NSString :=
  key.trim ++ mid ++ (dic.valueForKey key).elim "(null)" NSString.trim

/-- What is to be printed for the entry. -/
def entryField (mid : String) (entry : NSString × NSString) : NSString :=
  entry.1.trim ++ mid ++ entry.2.trim

/-- The bytes of the fields, in the order of the keys. -/
def fields (mid : String) (dic : NSDictionary) : List CString :=
  dic.allKeys.map fun key => (field mid dic key).utf8

def entryFields (mid : String) (dic : NSDictionary) : List CString :=
  dic.entries.map fun entry => (entryField mid entry).utf8

variable {formatStr mid : String} {dic dic' : NSDictionary}

theorem utf8_formatParToStr (hformat : Formats formatStr mid) (dic : NSDictionary) :
    (formatParToStr (some dic) formatStr).utf8 = [','.toUInt8].intercalate (fields mid dic) := by
  have hpar (key : NSString) : formatPar formatStr dic key = (field mid dic key).toList ++ [','] :=
    hformat _ _
  have hjoin : (dic.allKeys.flatMap (formatPar formatStr dic)).dropLast =
      [','].intercalate (dic.allKeys.map fun key => (field mid dic key).toList) := by
    rw [← Separated.dropLast_flatMap, List.flatMap_map]
    exact congrArg _ (List.flatMap_congr fun key _ => hpar key)
  have hcomma : String.utf8EncodeChar ',' = [','.toUInt8] :=
    NSString.utf8EncodeChar_ascii (by decide)
  simp only [formatParToStr, NSString.utf8, String.toList_ofList, hjoin,
    Separated.flatMap_intercalate _ _ hcomma, List.map_map, fields, Function.comp_def]

theorem length_fields : (fields mid dic).length = dic.entries.length := by
  simp [fields, allKeys]

/-- Where no key goes to the superclass, the fields are those of the entries. -/
theorem fields_of_plain (hplain : ∀ e ∈ dic.entries, Plain e.1) :
    fields mid dic = entryFields mid dic := by
  unfold fields entryFields allKeys
  rw [List.map_map]
  apply List.map_congr_left
  intro e he
  simp [field, entryField, valueForKey_of_mem (hplain e he) he]

theorem entryFields_perm (mid : String) (h : dic.SameEntries dic') :
    (entryFields mid dic).Perm (entryFields mid dic') :=
  h.map _

theorem not_mem_of_mem_entryFields {b : UInt8}
    (h : ∀ e ∈ dic.entries, b ∉ (entryField mid e).utf8) :
    ∀ f ∈ entryFields mid dic, b ∉ f := by
  intro f hf
  obtain ⟨e, he, rfl⟩ := List.mem_map.mp hf
  exact h e he

/-! ## What reaches mpv -/

/-- The bytes in front of the first NUL of the fields joined by commas. -/
theorem utf8String_formatParToStr (hformat : Formats formatStr mid) (dic : NSDictionary) :
    (formatParToStr (some dic) formatStr).utf8String =
      ([','.toUInt8].intercalate (fields mid dic)).takeWhile (· ≠ 0) := by
  rw [NSString.utf8String, utf8_formatParToStr hformat]

/-- Plain keys and fields without NUL reach mpv as they are. -/
theorem utf8String_of_plain (hformat : Formats formatStr mid)
    (hplain : ∀ e ∈ dic.entries, Plain e.1)
    (hnul : ∀ e ∈ dic.entries, 0 ∉ (entryField mid e).utf8) :
    (formatParToStr (some dic) formatStr).utf8String =
      [','.toUInt8].intercalate (entryFields mid dic) := by
  rw [utf8String_formatParToStr hformat, fields_of_plain hplain]
  exact Separated.takeWhile_intercalate _ (by decide) (not_mem_of_mem_entryFields hnul)

end Core
