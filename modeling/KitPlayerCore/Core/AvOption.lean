-- SUMMARY: When the options that mpv reads from `demuxer-lavf-o` are those of the dictionary.
import KitPlayerCore.Core.Parameters
import KitPlayerCore.Mpv.KeyValueList

/-!
# FFmpeg options

`setAvOptionDic:` gives mpv the options as one string and quotes nothing, and mpv
reads keys and values that may be quoted. The header asks only for keys without
special symbols.
-/

namespace Core

open Mpv NSDictionary

/-- No ASCII character of the string is anything but a letter or a digit. -/
def Alphanumeric (s : NSString) : Prop := ∀ c ∈ s.toList, c.toNat ≤ 127 → c.isAlphanum

instance (s : NSString) : Decidable (Alphanumeric s) :=
  List.decidableBAll (fun c : Char => c.toNat ≤ 127 → c.isAlphanum = true) s.toList

/-- The trimmed keys are as the header asks for. -/
structure OptionKeys (dic : NSDictionary) : Prop where
  nonempty : ∀ e ∈ dic.entries, e.1.trim ≠ ""
  alphanumeric : ∀ e ∈ dic.entries, Alphanumeric e.1.trim
  distinct : (dic.entries.map fun e => e.1.trim).Nodup

/-- What the dictionary stands for, as bytes. -/
def optionPairs (dic : NSDictionary) : List (CString × CString) :=
  dic.entries.map fun e => (e.1.trim.utf8, e.2.trim.utf8)

/-- In every order of the keys, mpv reads the map from the trimmed keys to the
    trimmed values. -/
def AvOptionRoundTrip (dic : NSDictionary) : Prop :=
  ∀ dic', dic.SameEntries dic' →
    ∃ lst, parseKeyvalueList [] (formatParToStr (some dic') "%@=%@,").utf8String = .ok lst ∧
      lst.Perm (optionPairs dic)

/-- The trimmed value has no comma, colon or NUL, and does not start with a quote. -/
structure Unquoted (value : NSString) : Prop where
  comma : ',' ∉ value.trim.toList
  colon : ':' ∉ value.trim.toList
  nul : '\x00' ∉ value.trim.toList
  quote : value.trim.toList.head? ∉ [some '"', some '[', some '%']

variable {dic : NSDictionary}

/-! ## Bytes that need no quoting -/

theorem raw_utf8 (termset : List Char) (s : NSString)
    (hascii : termset.all fun c => c.toNat ≤ 127) :
    Raw (termset.map Char.toUInt8) s.utf8 ↔
      (∀ c ∈ s.toList, c ∉ termset) ∧ ∀ c ∈ s.toList.head?, c ∉ ['"', '[', '%'] := by
  rw [← NSString.utf8_avoids hascii, ← NSString.utf8_head_avoids (by decide)]
  exact ⟨fun h => ⟨h.inside, h.head⟩, fun h => ⟨h.1, h.2⟩⟩

theorem unquoted_iff {value : NSString} :
    Unquoted value ↔
      Raw [','.toUInt8, ':'.toUInt8] value.trim.utf8 ∧ 0 ∉ value.trim.utf8 := by
  have hraw := raw_utf8 [',', ':'] value.trim (by decide)
  have hnul : (0 : UInt8) ∈ value.trim.utf8 ↔ '\x00' ∈ value.trim.toList :=
    NSString.mem_utf8 (a := '\x00') (by decide)
  have hinside : (∀ c ∈ value.trim.toList, c ∉ [',', ':']) ↔
      ',' ∉ value.trim.toList ∧ ':' ∉ value.trim.toList := by
    constructor
    · intro h
      exact ⟨fun hc => h _ hc (by simp), fun hc => h _ hc (by simp)⟩
    · rintro ⟨hcomma, hcolon⟩ c hc hmem
      simp only [List.mem_cons, List.not_mem_nil, or_false] at hmem
      rcases hmem with rfl | rfl
      · exact hcomma hc
      · exact hcolon hc
  have hhead : (∀ c ∈ value.trim.toList.head?, c ∉ ['"', '[', '%']) ↔
      value.trim.toList.head? ∉ [some '"', some '[', some '%'] := by
    cases value.trim.toList.head? <;> simp
  rw [hnul]
  refine Iff.trans ?_ (and_congr_left' hraw).symm
  rw [hinside, hhead]
  constructor
  · intro h
    exact ⟨⟨⟨h.comma, h.colon⟩, h.quote⟩, h.nul⟩
  · rintro ⟨⟨⟨hcomma, hcolon⟩, hquote⟩, hzero⟩
    exact ⟨hcomma, hcolon, hzero, hquote⟩

/-! ## Keys -/

theorem not_mem_of_alphanumeric {s : NSString} (h : Alphanumeric s) {c : Char}
    (hascii : c.toNat ≤ 127) (hsymbol : c.isAlphanum = false) : c ∉ s.toList := by
  intro hc
  have halnum := h c hc hascii
  rw [hsymbol] at halnum
  cases halnum

theorem OptionKeys.plain (h : OptionKeys dic) : ∀ e ∈ dic.entries, Plain e.1 := by
  intro e he hat
  have hmem : '@' ∈ e.1.trim.toList :=
    NSString.mem_trim (List.mem_of_head? hat) (by decide)
  exact not_mem_of_alphanumeric (h.alphanumeric e he) (by decide) (by decide) hmem

theorem OptionKeys.raw (h : OptionKeys dic) {e : NSString × NSString} (he : e ∈ dic.entries) :
    Raw ['='.toUInt8] e.1.trim.utf8 := by
  have hsymbol {c : Char} := not_mem_of_alphanumeric (h.alphanumeric e he) (c := c)
  apply (raw_utf8 ['='] e.1.trim (by decide)).mpr
  constructor
  · intro c hc hmem
    obtain rfl := List.mem_singleton.mp hmem
    exact hsymbol (by decide) (by decide) hc
  · intro c hc hmem
    have hmem' := List.mem_of_head? hc
    simp only [List.mem_cons, List.not_mem_nil, or_false] at hmem
    rcases hmem with rfl | rfl | rfl <;> exact hsymbol (by decide) (by decide) hmem'

theorem OptionKeys.reorder (h : OptionKeys dic) {dic' : NSDictionary}
    (hsame : dic.SameEntries dic') : OptionKeys dic' where
  nonempty e he := h.nonempty e (hsame.mem_iff.mpr he)
  alphanumeric e he := h.alphanumeric e (hsame.mem_iff.mpr he)
  distinct := (hsame.map _).nodup_iff.mp h.distinct

/-! ## Options that come back -/

theorem entryFields_eq (dic : NSDictionary) :
    entryFields "=" dic = (optionPairs dic).map printPair := by
  have hmid : NSString.utf8 "=" = ['='.toUInt8] := by decide
  rw [entryFields, optionPairs, List.map_map]
  apply List.map_congr_left
  intro e _
  simp [entryField, printPair, hmid]

theorem nul_not_mem_entryField_iff (h : OptionKeys dic) {e : NSString × NSString}
    (he : e ∈ dic.entries) : 0 ∉ (entryField "=" e).utf8 ↔ 0 ∉ e.2.trim.utf8 := by
  have hkey : (0 : UInt8) ∉ e.1.trim.utf8 :=
    (NSString.mem_utf8 (a := '\x00') (by decide)).not.mpr
      (not_mem_of_alphanumeric (h.alphanumeric e he) (by decide) (by decide))
  have hmid : NSString.utf8 "=" = ['='.toUInt8] := by decide
  have hne : (0 : UInt8) ≠ '='.toUInt8 := by decide
  simp [entryField, hmid, hkey, hne]

theorem roundTrip_of_unquoted (hkeys : OptionKeys dic)
    (h : ∀ e ∈ dic.entries, Unquoted e.2) : AvOptionRoundTrip dic := by
  intro dic' hsame
  have hkeys' := hkeys.reorder hsame
  have hvalues (e : NSString × NSString) (he : e ∈ dic'.entries) :=
    unquoted_iff.mp (h e (hsame.mem_iff.mpr he))
  have hstring : (formatParToStr (some dic') "%@=%@,").utf8String =
      [','.toUInt8].intercalate ((optionPairs dic').map printPair) := by
    rw [← entryFields_eq]
    exact utf8String_of_plain formats_avOption hkeys'.plain fun e he =>
      (nul_not_mem_entryField_iff hkeys' he).mpr (hvalues e he).2
  refine ⟨optionPairs dic', ?_, (hsame.map _).symm⟩
  rw [hstring, parseKeyvalueList_intercalate, List.nil_append]
  · intro p hp
    obtain ⟨e, he, rfl⟩ := List.mem_map.mp hp
    constructor <;> dsimp only
    · exact hkeys'.raw he
    · exact (hvalues e he).1
  · have hdistinct := hkeys'.distinct.map fun _ _ => NSString.utf8_injective
    simpa [optionPairs, Function.comp_def] using hdistinct

/-- What comes back weighs as much as the string only where nothing is quoted. -/
theorem unquoted_of_roundTrip (hkeys : OptionKeys dic) (h : AvOptionRoundTrip dic) :
    ∀ e ∈ dic.entries, Unquoted e.2 := by
  intro e he
  obtain ⟨lst, hparse, hperm⟩ := h dic (List.Perm.refl _)
  have hne : entryFields "=" dic ≠ [] := List.ne_nil_of_mem (List.mem_map_of_mem he)
  rw [utf8String_formatParToStr formats_avOption, fields_of_plain hkeys.plain] at hparse
  have hinit := List.takeWhile_prefix (l := [','.toUInt8].intercalate (entryFields "=" dic))
    (· ≠ 0)
  have hcut := hinit.length_le
  have hjoin := Separated.length_intercalate ','.toUInt8 hne
  obtain ⟨hle, hraw⟩ := weight_le hparse
  have hweight : weight lst = ((entryFields "=" dic).map List.length).sum +
      (entryFields "=" dic).length := by
    rw [entryFields_eq, ← weight_eq, weight, weight]
    exact (hperm.map _).sum_nat
  have hnil : weight [] = 0 := rfl
  have hwhole := List.takeWhile_eq_self_iff.mp (hinit.eq_of_length (by omega))
  refine unquoted_iff.mpr ⟨?_, ?_⟩
  · have hmem : (e.1.trim.utf8, e.2.trim.utf8) ∈ lst :=
      hperm.mem_iff.mpr (List.mem_map.mpr ⟨e, he, rfl⟩)
    have hvalue := hraw (by omega) _ hmem
    dsimp only at hvalue
    exact hvalue.resolve_left List.not_mem_nil
  · rw [← nul_not_mem_entryField_iff hkeys he]
    intro hnul
    have hjoined := (Separated.mem_intercalate ','.toUInt8 (entryFields "=" dic) (by decide)).mpr
      ⟨_, List.mem_map.mpr ⟨e, he, rfl⟩, hnul⟩
    exact absurd (hwhole 0 hjoined) (by decide)

/-- Where the keys are as the header asks for, the options come back exactly where no
    trimmed value has a comma, a colon or a NUL or starts with a quote. -/
theorem avOptionRoundTrip_iff {dic : NSDictionary} (hkeys : OptionKeys dic) :
    AvOptionRoundTrip dic ↔ ∀ e ∈ dic.entries, Unquoted e.2 :=
  ⟨unquoted_of_roundTrip hkeys, roundTrip_of_unquoted hkeys⟩

/-- The options of the demo. -/
theorem avOptionRoundTrip_demo :
    AvOptionRoundTrip ⟨[("maxPacketSize3", "20481"), ("maxPacketSize", "20481")], by decide,
      fun _ => none⟩ := by
  refine (avOptionRoundTrip_iff ⟨by decide, by decide, by decide⟩).mpr ?_
  intro e he
  simp only [List.mem_cons, List.not_mem_nil, or_false] at he
  rcases he with rfl | rfl <;> exact ⟨by decide, by decide, by decide, by decide⟩

/-- A URL has a colon, which ends the value, and the list is discarded. -/
theorem not_avOptionRoundTrip : ¬ ∀ dic, OptionKeys dic → AvOptionRoundTrip dic := by
  intro h
  have hkeys : OptionKeys ⟨[("referer", "http://127.0.0.1")], by decide, fun _ => none⟩ :=
    ⟨by decide, by decide, by decide⟩
  have hvalue := unquoted_of_roundTrip hkeys (h _ hkeys) _ List.mem_cons_self
  exact absurd hvalue.colon (by decide)

end Core
