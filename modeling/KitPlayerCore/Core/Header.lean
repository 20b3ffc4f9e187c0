-- SUMMARY: When the headers that mpv reads from `http-header-fields` are those of the dictionary.
import KitPlayerCore.Core.Parameters
import KitPlayerCore.Mpv.StringList

/-!
# Headers

`setHeaderDic:` gives mpv the headers as one string, and mpv cuts the string at its
commas. The two agree on the dictionaries whose fields need no quoting.
-/

namespace Core

open Mpv NSDictionary

/-- In every order of the keys, and whatever the superclass answers, mpv reads one
    header for each entry: its trimmed key and its trimmed value. -/
def HeaderRoundTrip (dic : NSDictionary) : Prop :=
  ∀ dic', dic.SameEntries dic' →
    (parseStrList optionListSeparator
      (formatParToStr (some dic') "%@: %@,").utf8String).Perm (entryFields ": " dic)

/-- The trimmed string has neither a comma nor a NUL. -/
def Unsplit (s : NSString) : Prop := ',' ∉ s.trim.toList ∧ '\x00' ∉ s.trim.toList

/-- The trimmed string ends in a backslash. -/
def EndsInBackslash (s : NSString) : Prop := s.trim.toList.getLast? = some '\\'

/-- Nothing in the dictionary needs quoting. -/
structure HeaderSafe (dic : NSDictionary) : Prop where
  nonempty : dic.entries ≠ []
  plain : ∀ e ∈ dic.entries, Plain e.1
  unsplit : ∀ e ∈ dic.entries, Unsplit e.1 ∧ Unsplit e.2
  backslash : dic.entries.length = 1 ∨ ∀ e ∈ dic.entries, ¬ EndsInBackslash e.2

variable {dic : NSDictionary}

/-! ## Fields as bytes -/

theorem comma_not_mem_entryField {e : NSString × NSString} :
    optionListSeparator ∉ (entryField ": " e).utf8 ↔
      ',' ∉ e.1.trim.toList ∧ ',' ∉ e.2.trim.toList := by
  rw [optionListSeparator, NSString.mem_utf8 (by decide)]
  simp [entryField]

theorem nul_not_mem_entryField {e : NSString × NSString} :
    0 ∉ (entryField ": " e).utf8 ↔ '\x00' ∉ e.1.trim.toList ∧ '\x00' ∉ e.2.trim.toList := by
  have hnul : (0 : UInt8) = '\x00'.toUInt8 := rfl
  rw [hnul, NSString.mem_utf8 (by decide)]
  simp [entryField]

theorem getLast?_entryField {e : NSString × NSString} :
    (entryField ": " e).utf8.getLast? = some backslash ↔ EndsInBackslash e.2 := by
  have hmid : (": " : String).toList = [':', ' '] := by decide
  rw [backslash, NSString.getLast?_utf8 (by decide), EndsInBackslash]
  rcases List.eq_nil_or_concat e.2.trim.toList with hv | ⟨cs, c, hv⟩
  · simp [entryField, hmid, hv]
  · have hlast : (' ' :: (cs ++ [c])).getLast? = some c := by
      rw [← List.cons_append, List.getLast?_concat]
    simp [entryField, hmid, hv, hlast]

/-! ## Keys of the superclass -/

/-- The field of the entry where the superclass answers `value`. -/
def filledField (value : NSString) (e : NSString × NSString) : NSString :=
  e.1.trim ++ ": " ++ if Plain e.1 then e.2.trim else value.trim

theorem fields_answering (value : NSString) :
    fields ": " (dic.answering value) = dic.entries.map fun e => (filledField value e).utf8 := by
  unfold fields allKeys
  rw [List.map_map]
  apply List.map_congr_left
  intro e he
  by_cases hplain : Plain e.1
  · have hvalue : (dic.answering value).valueForKey e.1 = some e.2 :=
      valueForKey_of_mem hplain he
    simp [field, filledField, hplain, hvalue]
  · simp [field, filledField, hplain, valueForKey_answering hplain]

theorem perm_answering (h : HeaderRoundTrip dic) (value : NSString) :
    (parseStrList optionListSeparator (([optionListSeparator].intercalate
      (fields ": " (dic.answering value))).takeWhile (· ≠ 0))).Perm (entryFields ": " dic) := by
  have hperm := h (dic.answering value) (List.Perm.refl _)
  rwa [utf8String_formatParToStr formats_header] at hperm

theorem entries_ne_nil (h : HeaderRoundTrip dic) : dic.entries ≠ [] := by
  intro hnil
  have hperm := h dic (List.Perm.refl _)
  simp only [entryFields, hnil, List.map_nil, List.perm_nil] at hperm
  exact parseStrList_ne_nil hperm

theorem filledField_of_plain {value : NSString} {e : NSString × NSString} (h : Plain e.1) :
    filledField value e = entryField ": " e := by
  simp [filledField, entryField, h]

/-- If the superclass answers an empty string, the string is too short for a value
    that is not empty. -/
theorem trim_eq_of_not_plain (h : HeaderRoundTrip dic) {e : NSString × NSString}
    (he : e ∈ dic.entries) (hplain : ¬ Plain e.1) : e.2.trim = "" := by
  by_contra hne
  have hle := sum_length_le_of_perm (by rw [length_fields]; simp [entryFields, answering])
    (by simpa [fields_answering] using entries_ne_nil h) (perm_answering h "")
  rw [fields_answering, entryFields, List.map_map, List.map_map] at hle
  have hlength (e : NSString × NSString) (hplain : ¬ Plain e.1) :
      (filledField "" e).utf8.length + e.2.trim.utf8.length = (entryField ": " e).utf8.length := by
    have hempty : (NSString.trim "").utf8 = [] := by decide
    simp [filledField, entryField, hplain, hempty]
    omega
  refine absurd hle (Nat.not_le.mpr (List.sum_lt_sum _ _ ?_ ⟨e, he, ?_⟩))
  · intro e' _
    by_cases hplain' : Plain e'.1
    · simp [filledField_of_plain hplain']
    · have := hlength e' hplain'
      simp only [Function.comp_apply]
      omega
  · have hpos : 0 < e.2.trim.utf8.length :=
      List.length_pos_iff.mpr (NSString.utf8_eq_nil.not.mpr hne)
    have := hlength e hplain
    simp only [Function.comp_apply]
    omega

theorem fields_answering_empty (h : HeaderRoundTrip dic) :
    fields ": " (dic.answering "") = entryFields ": " dic := by
  rw [fields_answering]
  apply List.map_congr_left
  intro e he
  by_cases hplain : Plain e.1
  · rw [filledField_of_plain hplain]
  · have hempty : NSString.trim "" = "" := by decide
    simp [filledField, entryField, hplain, hempty, trim_eq_of_not_plain h he hplain]

/-- Nothing is cut off at a NUL, and no field has a comma. -/
theorem whole_of_roundTrip (h : HeaderRoundTrip dic) :
    ∀ e ∈ dic.entries, 0 ∉ (entryField ": " e).utf8 ∧
      optionListSeparator ∉ (entryField ": " e).utf8 := by
  have hperm := perm_answering h ""
  rw [fields_answering_empty h] at hperm
  obtain ⟨hwhole, hsep⟩ := whole_of_perm rfl (by simpa [entryFields] using entries_ne_nil h)
    hperm le_rfl
  intro e he
  have hmem : (entryField ": " e).utf8 ∈ entryFields ": " dic := List.mem_map.mpr ⟨e, he, rfl⟩
  refine ⟨fun hnul => ?_, hsep _ hmem⟩
  have hjoin : (0 : UInt8) ∈ [optionListSeparator].intercalate (entryFields ": " dic) :=
    (Separated.mem_intercalate _ _ (by decide)).mpr ⟨_, hmem, hnul⟩
  exact absurd (List.takeWhile_eq_self_iff.mp hwhole 0 hjoin) (by decide)

/-- If the superclass answers a letter, the string is too long. -/
theorem plain_of_roundTrip (h : HeaderRoundTrip dic) : ∀ e ∈ dic.entries, Plain e.1 := by
  intro e he
  by_contra hplain
  have hne := entries_ne_nil h
  have hletter : NSString.trim "x" = "x" := by decide
  have hbytes : NSString.utf8 "x" = [120] := by decide
  have hfield (e : NSString × NSString) (he : e ∈ dic.entries) (hplain : ¬ Plain e.1) :
      (filledField "x" e).utf8 = (entryField ": " e).utf8 ++ [120] := by
    simp [filledField, entryField, hplain, hletter, hbytes, trim_eq_of_not_plain h he hplain]
  have hmem (b : UInt8) (hb : b ≠ 120)
      (hentry : ∀ e ∈ dic.entries, b ∉ (entryField ": " e).utf8) :
      ∀ f ∈ fields ": " (dic.answering "x"), b ∉ f := by
    rw [fields_answering]
    intro f hf
    obtain ⟨e, he, rfl⟩ := List.mem_map.mp hf
    by_cases hplain : Plain e.1
    · rw [filledField_of_plain hplain]
      exact hentry e he
    · rw [hfield e he hplain]
      simpa using ⟨hentry e he, hb⟩
  have hwhole := whole_of_roundTrip h
  have hnul := hmem 0 (by decide) fun e he => (hwhole e he).1
  have hsep := hmem optionListSeparator (by decide) fun e he => (hwhole e he).2
  have hfields : fields ": " (dic.answering "x") ≠ [] := by
    simpa [fields_answering] using hne
  -- nothing is cut off, so the lengths of the fields are those of what comes back
  have hcut := Separated.takeWhile_intercalate optionListSeparator (by decide) hnul
  have hperm := perm_answering h "x"
  rw [hcut] at hperm
  have hsum := sum_length_parseStrList optionListSeparator
    ([optionListSeparator].intercalate (fields ": " (dic.answering "x")))
  have hcount := Separated.count_intercalate optionListSeparator hfields hsep
  have hjoin := Separated.length_intercalate optionListSeparator hfields
  rw [(hperm.map List.length).sum_nat] at hsum
  have hlt : ((entryFields ": " dic).map List.length).sum <
      ((fields ": " (dic.answering "x")).map List.length).sum := by
    rw [fields_answering, entryFields, List.map_map, List.map_map]
    refine List.sum_lt_sum _ _ ?_ ⟨e, he, ?_⟩
    · intro e' he'
      by_cases hplain' : Plain e'.1
      · simp [filledField_of_plain hplain']
      · simp [hfield e' he' hplain']
    · simp [hfield e he hplain]
  omega

/-! ## Backslashes -/

/-- An entry whose value ends in a backslash may come first, and then takes the first
    comma with it. -/
theorem backslash_of_roundTrip (h : HeaderRoundTrip dic) :
    dic.entries.length = 1 ∨ ∀ e ∈ dic.entries, ¬ EndsInBackslash e.2 := by
  by_cases hone : dic.entries.length = 1
  · exact .inl hone
  · refine .inr fun e he hlast => ?_
    obtain ⟨before, after, hentries⟩ := List.append_of_mem he
    have hfirst : dic.entries.Perm (e :: (before ++ after)) := by
      rw [hentries]
      exact List.perm_middle
    have hsame : dic.SameEntries (dic.reorder _ hfirst) := hfirst
    have hwhole (e' : NSString × NSString) (he' : e' ∈ (dic.reorder _ hfirst).entries) :=
      whole_of_roundTrip h e' (hfirst.mem_iff.mpr he')
    have hplain (e' : NSString × NSString) (he' : e' ∈ (dic.reorder _ hfirst).entries) :=
      plain_of_roundTrip h e' (hfirst.mem_iff.mpr he')
    have hstring : (formatParToStr (some (dic.reorder _ hfirst)) "%@: %@,").utf8String =
        [optionListSeparator].intercalate (entryFields ": " (dic.reorder _ hfirst)) :=
      utf8String_of_plain formats_header hplain fun e' he' => (hwhole e' he').1
    have hrest : (before ++ after).map (fun e => (entryField ": " e).utf8) ≠ [] := by
      intro hnil
      rw [List.map_eq_nil_iff] at hnil
      rw [hfirst.length_eq, hnil] at hone
      exact hone rfl
    have hcons : [optionListSeparator].intercalate (entryFields ": " (dic.reorder _ hfirst)) =
        (entryField ": " e).utf8 ++ optionListSeparator :: [optionListSeparator].intercalate
          ((before ++ after).map fun e => (entryField ": " e).utf8) := by
      rw [entryFields, reorder, List.map_cons, List.intercalate_cons_of_ne_nil hrest,
        List.append_assoc, List.singleton_append]
    have hle := length_parseStrList_of_backslash ([optionListSeparator].intercalate
      ((before ++ after).map fun e => (entryField ": " e).utf8))
      (whole_of_roundTrip h e he).2 (getLast?_entryField.mpr hlast)
    have hne : entryFields ": " (dic.reorder _ hfirst) ≠ [] := List.cons_ne_nil _ _
    have hcount := Separated.count_intercalate optionListSeparator hne
      (not_mem_of_mem_entryFields fun e' he' => (hwhole e' he').2)
    have hlength := (hstring ▸ h _ hsame).length_eq
    have hfields := (entryFields_perm ": " hsame).length_eq
    rw [← hcons] at hle
    omega

theorem headerSafe_of_roundTrip (h : HeaderRoundTrip dic) : HeaderSafe dic where
  nonempty := entries_ne_nil h
  plain := plain_of_roundTrip h
  unsplit e he := by
    obtain ⟨hnul, hsep⟩ := whole_of_roundTrip h e he
    have hsep' := comma_not_mem_entryField.mp hsep
    have hnul' := nul_not_mem_entryField.mp hnul
    exact ⟨⟨hsep'.1, hnul'.1⟩, ⟨hsep'.2, hnul'.2⟩⟩
  backslash := backslash_of_roundTrip h

/-! ## Headers that come back -/

theorem roundTrip_of_headerSafe (h : HeaderSafe dic) : HeaderRoundTrip dic := by
  intro dic' hsame
  have hmem {e : NSString × NSString} (he : e ∈ dic'.entries) : e ∈ dic.entries :=
    hsame.mem_iff.mpr he
  have hsep (e : NSString × NSString) (he : e ∈ dic'.entries) :
      optionListSeparator ∉ (entryField ": " e).utf8 :=
    comma_not_mem_entryField.mpr
      ⟨(h.unsplit e (hmem he)).1.1, (h.unsplit e (hmem he)).2.1⟩
  have hstring : (formatParToStr (some dic') "%@: %@,").utf8String =
      [optionListSeparator].intercalate (entryFields ": " dic') :=
    utf8String_of_plain formats_header (fun e he => h.plain e (hmem he)) fun e he =>
      nul_not_mem_entryField.mpr ⟨(h.unsplit e (hmem he)).1.2, (h.unsplit e (hmem he)).2.2⟩
  have hlength : dic'.entries.length = dic.entries.length := hsame.length_eq.symm
  have hne : entryFields ": " dic' ≠ [] := by
    rw [entryFields, Ne, List.map_eq_nil_iff]
    intro hnil
    rw [hnil, List.length_nil] at hlength
    exact h.nonempty (List.eq_nil_of_length_eq_zero hlength.symm)
  rw [hstring, parseStrList_intercalate hne (not_mem_of_mem_entryFields hsep) ?_]
  · exact (entryFields_perm ": " hsame).symm
  · intro f hf
    rcases h.backslash with hone | hlast
    · obtain ⟨e, he⟩ := List.length_eq_one_iff.mp (hlength.trans hone)
      rw [entryFields, he] at hf
      exact absurd hf List.not_mem_nil
    · obtain ⟨e, he, rfl⟩ := List.mem_map.mp (List.dropLast_subset _ hf)
      exact getLast?_entryField.not.mpr (hlast e (hmem he))

/-- The headers come back exactly where nothing in the dictionary needs quoting: it
    has an entry, no key starts with `@`, no comma and no NUL is in a trimmed key or
    value, and with two entries or more no trimmed value ends in a backslash. -/
theorem headerRoundTrip_iff (dic : NSDictionary) : HeaderRoundTrip dic ↔ HeaderSafe dic :=
  ⟨headerSafe_of_roundTrip, roundTrip_of_headerSafe⟩

/-- The headers of the demo, whose `User-Agent` has a comma. -/
theorem not_headerRoundTrip : ¬ ∀ dic, HeaderRoundTrip dic := by
  intro h
  have hsafe := headerSafe_of_roundTrip (h ⟨[("User-Agent",
    "Mozilla/5.0 (Macintosh; Intel Mac OS X 10_15_7) AppleWebKit/605.1.15 " ++
      "(KHTML, like Gecko) Version/15.5 Safari/605.1.15"),
    ("Origin", "https://www.bilibili.com"), ("Referer", "https://www.bilibili.com/")],
    by decide, fun _ => none⟩)
  exact absurd (hsafe.unsplit _ List.mem_cons_self).2.1 (by decide +kernel)

end Core
