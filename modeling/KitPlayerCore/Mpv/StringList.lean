-- SUMMARY: mpv's parser for options that are lists of strings, and what it makes of a separated list.
import KitPlayerCore.Foundation.NSString
import KitPlayerCore.Foundation.Separated

/-!
# String lists

The option is cut at its separators. A backslash in front of a separator is
dropped, and the separator then belongs to the element. Nothing else is quoted.
-/

namespace Mpv

/-- `OPTION_LIST_SEPARATOR`. -/
def optionListSeparator : UInt8 := ','.toUInt8

/-- `'\\'`. -/
def backslash : UInt8 := '\\'.toUInt8

/-- `get_nextsep`, where `before` are the bytes in front of those that are left:
    the first element, and what is left from its separator on. -/
def getNextsep (sep : UInt8) (before : CString) : CString → CString × CString
  | [] => (before, [])
  | c :: str =>
    if c ≠ sep then getNextsep sep (before ++ [c]) str
    else if before.getLast? = some backslash then
      -- the separator takes the place of the backslash, and the search starts anew
      let (el, rest) := getNextsep sep [] str
      (before.dropLast ++ c :: el, rest)
    else (before, c :: str)

/-! ## The next separator -/

section getNextsep

variable {sep : UInt8} {before str : CString}

theorem getNextsep_skip {c : UInt8} (hc : c ≠ sep) :
    getNextsep sep before (c :: str) = getNextsep sep (before ++ [c]) str := by
  simp [getNextsep, hc]

theorem getNextsep_stop (h : before.getLast? ≠ some backslash) :
    getNextsep sep before (sep :: str) = (before, sep :: str) := by
  simp [getNextsep, h]

theorem getNextsep_pass (h : before.getLast? = some backslash) :
    getNextsep sep before (sep :: str) =
      (before.dropLast ++ sep :: (getNextsep sep [] str).1, (getNextsep sep [] str).2) := by
  simp [getNextsep, h]

/-- Bytes that are not separators are passed. -/
theorem getNextsep_append (before field str : CString) (h : sep ∉ field) :
    getNextsep sep before (field ++ str) = getNextsep sep (before ++ field) str := by
  induction field generalizing before with
  | nil => simp
  | cons c field ih =>
    have hc : c ≠ sep := (List.ne_of_not_mem_cons h).symm
    rw [List.cons_append, getNextsep_skip hc, ih _ (List.not_mem_of_not_mem_cons h),
      List.append_assoc, List.singleton_append]

/-- What is left starts with a separator. -/
theorem getNextsep_head {c : UInt8} {rest : CString}
    (h : (getNextsep sep before str).2 = c :: rest) : c = sep := by
  induction str generalizing before with
  | nil => cases h
  | cons d str ih =>
    by_cases hd : d = sep
    · subst hd
      by_cases hlast : before.getLast? = some backslash
      · rw [getNextsep_pass hlast] at h
        exact ih h
      · rw [getNextsep_stop hlast] at h
        exact (List.cons.inj h).1.symm
    · rw [getNextsep_skip hd] at h
      exact ih h

/-- Each separator that was passed has cost one byte, its backslash. -/
theorem getNextsep_length (sep : UInt8) (before str : CString) :
    (getNextsep sep before str).1.length + (getNextsep sep before str).2.length +
      str.count sep = before.length + str.length + (getNextsep sep before str).2.count sep := by
  induction str generalizing before with
  | nil => simp [getNextsep]
  | cons c str ih =>
    by_cases hc : c = sep
    · subst hc
      by_cases hlast : before.getLast? = some backslash
      · have hrest := ih []
        have hpos : 0 < before.length := by
          cases before with
          | nil => cases hlast
          | cons b bs => exact Nat.succ_pos _
        rw [getNextsep_pass hlast]
        simp only [List.length_append, List.length_cons, List.length_dropLast,
          List.count_cons_self, List.length_nil] at hrest ⊢
        omega
      · rw [getNextsep_stop hlast]
    · have hrest := ih (before ++ [c])
      rw [getNextsep_skip hc]
      simp only [List.length_append, List.length_cons, List.length_nil,
        List.count_cons_of_ne hc] at hrest ⊢
      omega

theorem getNextsep_count_le (sep : UInt8) (before str : CString) :
    (getNextsep sep before str).2.count sep ≤ str.count sep := by
  induction str generalizing before with
  | nil => simp [getNextsep]
  | cons c str ih =>
    by_cases hc : c = sep
    · subst hc
      by_cases hlast : before.getLast? = some backslash
      · rw [getNextsep_pass hlast, List.count_cons_self]
        exact (ih []).trans (Nat.le_succ _)
      · rw [getNextsep_stop hlast]
    · rw [getNextsep_skip hc, List.count_cons_of_ne hc]
      exact ih _

/-- Where no separator was passed, there is none in the element. -/
theorem not_mem_getNextsep (sep : UInt8) (before str : CString)
    (h : (getNextsep sep before str).2.count sep = str.count sep)
    (hbefore : sep ∉ before) : sep ∉ (getNextsep sep before str).1 := by
  induction str generalizing before with
  | nil => exact hbefore
  | cons c str ih =>
    by_cases hc : c = sep
    · subst hc
      by_cases hlast : before.getLast? = some backslash
      · have hle := getNextsep_count_le c [] str
        simp only [getNextsep_pass hlast, List.count_cons_self] at h
        omega
      · rw [getNextsep_stop hlast]
        exact hbefore
    · rw [getNextsep_skip hc, List.count_cons_of_ne hc] at h
      rw [getNextsep_skip hc]
      exact ih _ h (by simpa using ⟨hbefore, Ne.symm hc⟩)

end getNextsep

/-! ## The list -/

/-- The loop of `parse_str_list_impl` for an option that is set as a whole. -/
def parseStrList (sep : UInt8) (param : CString) : List CString :=
  match _h : getNextsep sep [] param with
  | (el, []) => [el]
  | (el, _ :: rest) => el :: parseStrList sep rest
termination_by param.length
decreasing_by
  have hlength := getNextsep_length sep [] param
  have hcount := getNextsep_count_le sep [] param
  simp only [_h, List.length_cons, List.length_nil] at hlength hcount
  omega

section parseStrList

variable {sep : UInt8} {param : CString}

theorem parseStrList_last {el : CString} (h : getNextsep sep [] param = (el, [])) :
    parseStrList sep param = [el] := by
  rw [parseStrList]
  split <;> simp_all

theorem parseStrList_cons {el rest : CString} {c : UInt8}
    (h : getNextsep sep [] param = (el, c :: rest)) :
    parseStrList sep param = el :: parseStrList sep rest := by
  rw [parseStrList]
  split <;> simp_all

theorem parseStrList_ne_nil : parseStrList sep param ≠ [] := by
  rw [parseStrList]
  split <;> exact List.cons_ne_nil _ _

/-- Every separator costs one byte, itself or its backslash. -/
theorem sum_length_parseStrList (sep : UInt8) (param : CString) :
    ((parseStrList sep param).map List.length).sum + param.count sep = param.length := by
  fun_induction parseStrList sep param with
  | case1 param el h =>
    have hlength := getNextsep_length sep [] param
    simpa [h] using hlength
  | case2 param el c rest h ih =>
    have hlength := getNextsep_length sep [] param
    obtain rfl : c = sep := getNextsep_head (by rw [h])
    simp only [h, List.length_cons, List.length_nil, List.count_cons_self] at hlength
    simp only [List.map_cons, List.sum_cons]
    omega

theorem length_parseStrList_le (sep : UInt8) (param : CString) :
    (parseStrList sep param).length ≤ param.count sep + 1 := by
  fun_induction parseStrList sep param with
  | case1 param el h => simp
  | case2 param el c rest h ih =>
    have hcount := getNextsep_count_le sep [] param
    obtain rfl : c = sep := getNextsep_head (by rw [h])
    simp only [h, List.count_cons_self] at hcount
    simp only [List.length_cons]
    omega

/-- A list with as many elements as the separators allow has none in an element. -/
theorem not_mem_of_mem_parseStrList
    (h : (parseStrList sep param).length = param.count sep + 1) :
    ∀ el ∈ parseStrList sep param, sep ∉ el := by
  fun_induction parseStrList sep param with
  | case1 param el hnext =>
    have hcount : param.count sep = 0 := by simpa using h.symm
    intro el' hel
    obtain rfl := List.mem_singleton.mp hel
    have hmem := not_mem_getNextsep sep [] param
    rw [hnext] at hmem
    exact hmem (by simp [hcount]) List.not_mem_nil
  | case2 param el c rest hnext ih =>
    obtain rfl : c = sep := getNextsep_head (by rw [hnext])
    have hle := length_parseStrList_le c rest
    have hcount := getNextsep_count_le c [] param
    simp only [hnext, List.count_cons_self] at hcount
    simp only [List.length_cons] at h
    intro el' hel
    rcases List.mem_cons.mp hel with rfl | hel
    · have hmem := not_mem_getNextsep c [] param
      rw [hnext] at hmem
      exact hmem (by simp only [List.count_cons_self]; omega) List.not_mem_nil
    · exact ih (by omega) el' hel

/-- A backslash at the end of a field takes the separator behind it into the field. -/
theorem length_parseStrList_of_backslash {field : CString} (rest : CString) (h : sep ∉ field)
    (hlast : field.getLast? = some backslash) :
    (parseStrList sep (field ++ sep :: rest)).length ≤ (field ++ sep :: rest).count sep := by
  have hnext : getNextsep sep [] (field ++ sep :: rest) =
      (field.dropLast ++ sep :: (getNextsep sep [] rest).1, (getNextsep sep [] rest).2) := by
    rw [getNextsep_append [] field _ h, List.nil_append, getNextsep_pass hlast]
  -- the elements behind the first are those of the rest
  have hsame : (parseStrList sep (field ++ sep :: rest)).length =
      (parseStrList sep rest).length := by
    cases hrest : getNextsep sep [] rest with
    | mk el rest' =>
      rw [hrest] at hnext
      cases rest' with
      | nil => rw [parseStrList_last hnext, parseStrList_last hrest]; rfl
      | cons c rest' => rw [parseStrList_cons hnext, parseStrList_cons hrest]; rfl
  have hle := length_parseStrList_le sep rest
  rw [hsame, List.count_append, List.count_cons_self, List.count_eq_zero.mpr h]
  omega

/-- Fields without separators are the elements of the list, where only the last one
    may end in a backslash. -/
theorem parseStrList_intercalate {fields : List CString} (hne : fields ≠ [])
    (hsep : ∀ f ∈ fields, sep ∉ f) (hlast : ∀ f ∈ fields.dropLast, f.getLast? ≠ some backslash) :
    parseStrList sep ([sep].intercalate fields) = fields := by
  induction fields with
  | nil => exact absurd rfl hne
  | cons f fields ih =>
    have hf := hsep f List.mem_cons_self
    cases fields with
    | nil =>
      have hnext : getNextsep sep [] f = (f, []) := by
        have happend := getNextsep_append [] f [] hf
        rwa [List.append_nil] at happend
      rw [List.intercalate_singleton, parseStrList_last hnext]
    | cons g fields =>
      have hstop : f.getLast? ≠ some backslash := hlast f List.mem_cons_self
      have hnext : getNextsep sep [] ([sep].intercalate (f :: g :: fields)) =
          (f, sep :: [sep].intercalate (g :: fields)) := by
        rw [List.intercalate_cons_cons, List.append_assoc, getNextsep_append [] f _ hf,
          List.nil_append, List.singleton_append, getNextsep_stop hstop]
      rw [parseStrList_cons hnext]
      congr 1
      apply ih (List.cons_ne_nil g fields)
      · exact fun h hh => hsep h (List.mem_cons_of_mem _ hh)
      · exact fun h hh => hlast h (List.mem_cons_of_mem _ hh)

/-! ## Fields that come back

Here `fields` are joined and read up to the first NUL, and the elements of the list
are, in some order, those of `fields'`. -/

variable {fields fields' : List CString}

theorem sum_length_le_of_perm (hlen : fields.length = fields'.length) (hne : fields ≠ [])
    (h : (parseStrList sep (([sep].intercalate fields).takeWhile (· ≠ 0))).Perm fields') :
    (fields'.map List.length).sum ≤ (fields.map List.length).sum := by
  have hjoin := Separated.length_intercalate sep hne
  have hcut := (List.takeWhile_prefix (l := [sep].intercalate fields) (· ≠ 0)).length_le
  have hsum := sum_length_parseStrList sep (([sep].intercalate fields).takeWhile (· ≠ 0))
  have hcount := length_parseStrList_le sep (([sep].intercalate fields).takeWhile (· ≠ 0))
  rw [(h.map List.length).sum_nat] at hsum
  rw [h.length_eq] at hcount
  omega

/-- Fields that are no longer than what comes back hold no NUL, and what comes back
    holds no separator. -/
theorem whole_of_perm (hlen : fields.length = fields'.length) (hne : fields ≠ [])
    (h : (parseStrList sep (([sep].intercalate fields).takeWhile (· ≠ 0))).Perm fields')
    (hle : (fields.map List.length).sum ≤ (fields'.map List.length).sum) :
    ([sep].intercalate fields).takeWhile (· ≠ 0) = [sep].intercalate fields ∧
      ∀ f ∈ fields', sep ∉ f := by
  have hjoin := Separated.length_intercalate sep hne
  have hinit := List.takeWhile_prefix (l := [sep].intercalate fields) (· ≠ 0)
  have hcut := hinit.length_le
  have hsum := sum_length_parseStrList sep (([sep].intercalate fields).takeWhile (· ≠ 0))
  have hcount := length_parseStrList_le sep (([sep].intercalate fields).takeWhile (· ≠ 0))
  have hlength := h.length_eq
  rw [(h.map List.length).sum_nat] at hsum
  refine ⟨hinit.eq_of_length (by omega), fun f hf => ?_⟩
  exact not_mem_of_mem_parseStrList (by omega) f (h.mem_iff.mpr hf)

end parseStrList

end Mpv
