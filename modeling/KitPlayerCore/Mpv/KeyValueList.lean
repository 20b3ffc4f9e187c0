-- SUMMARY: mpv's parser for options that are lists of keys with values, with its three ways to quote.
import KitPlayerCore.Foundation.NSString
import KitPlayerCore.Foundation.Separated

/-!
# Key/value lists

The option is a list of `key=value`, separated by commas or colons. A key or a
value may be quoted as `"..."`, as `[...]` with balanced brackets, or as `%n%`
followed by `n` bytes. Any error discards the whole list.
-/

namespace Mpv

/-- What the parser complains about. The code that it returns is always
    `M_OPT_INVALID`. -/
inductive ParseError where
  /-- Terminating '"' missing. -/
  | missingQuote
  /-- Terminating ']' missing. -/
  | missingBracket
  /-- Invalid length. -/
  | invalidLength (optlen : Int)
  /-- Expected '=' and a value. -/
  | expectedValue
  /-- Unparseable garbage at end of option value. -/
  | garbage (param : CString)
  deriving DecidableEq, Repr

/-! ## Numbers -/

/-- `mp_isspace`. -/
def isSpace (c : UInt8) : Bool :=
  c ∈ [' '.toUInt8, 0x0C, 0x0A, 0x0D, 0x09, 0x0B]

/-- The value of a digit in a base of at most 16. -/
def digit (base : Nat) (c : UInt8) : Option Nat :=
  let n := c.toNat
  let d := if 48 ≤ n ∧ n ≤ 57 then n - 48
    else if 65 ≤ n ∧ n ≤ 70 then n - 55
    else if 97 ≤ n ∧ n ≤ 102 then n - 87
    else 16
  if d < base then some d else none

/-- `strtoll` with base 0, on a string without leading white space: the number, cut
    off at the range of `long long`, and how many bytes it takes. -/
def strtoll (buf : CString) : Int × Nat :=
  let (negative, sign) := match buf with
    | c :: _ => (c == '-'.toUInt8, if c = '-'.toUInt8 ∨ c = '+'.toUInt8 then 1 else 0)
    | [] => (false, 0)
  let (base, skip) := match buf.drop sign with
    | 0x30 :: x :: c :: _ =>
      if (x = 'x'.toUInt8 ∨ x = 'X'.toUInt8) ∧ (digit 16 c).isSome then (16, 2) else (8, 0)
    | 0x30 :: _ => (8, 0)
    | _ => (10, 0)
  let digits := (buf.drop (sign + skip)).takeWhile fun c => (digit base c).isSome
  let value : Int := digits.foldl (fun n c => base * n + ((digit base c).getD 0 : Nat)) 0
  if digits = [] then (0, 0)
  else
    (max (-2 ^ 63) (min (if negative then -value else value) (2 ^ 63 - 1)),
      sign + skip + digits.length)

/-- `bstrtoll` with base 0: the number, and what follows it. Only 50 bytes are read. -/
def bstrtoll (str : CString) : Int × CString :=
  let str := str.dropWhile isSpace
  let (r, n) := strtoll (str.take 50)
  (r, str.drop n)

/-! ## Values -/

/-- How many brackets are open after the byte. -/
def balanceAfter (balance : Nat) (c : UInt8) : Nat :=
  if c = '['.toUInt8 then balance + 1
  else if c = ']'.toUInt8 then balance - 1
  else balance

/-- The loop over `[...]`, behind its first bracket: what is in the brackets, and
    what follows them. -/
def readBrackets : Nat → CString → Option (CString × CString)
  | _, [] => none
  | balance, c :: p =>
    if balanceAfter balance c = 0 then some ([], p)
    else (readBrackets (balanceAfter balance c) p).map fun (subparam, p) => (c :: subparam, p)

/-- `read_subparam`: a key or a value, and what follows it. -/
def readSubparam (termset : CString) : CString → Except ParseError (CString × CString)
  | [] => .ok ([], [])
  | c :: p =>
    if c = '"'.toUInt8 then
      match p.dropWhile (· ≠ '"'.toUInt8) with
      | _ :: rest => .ok (p.takeWhile (· ≠ '"'.toUInt8), rest)
      | [] => .error .missingQuote
    else if c = '['.toUInt8 then
      match readBrackets 1 p with
      | some r => .ok r
      | none => .error .missingBracket
    else if c = '%'.toUInt8 then
      let (r, p) := bstrtoll p
      -- the result is stored in an int
      let optlen := r.bmod (2 ^ 32)
      match p with
      | d :: p =>
        -- optlen is compared as a size_t, so a negative one is too large
        if d = '%'.toUInt8 ∧ 0 ≤ optlen ∧ optlen ≤ p.length then
          .ok (p.take optlen.toNat, p.drop optlen.toNat)
        else .error (.invalidLength optlen)
      | [] => .error (.invalidLength optlen)
    else .ok ((c :: p).takeWhile (· ∉ termset), (c :: p).dropWhile (· ∉ termset))

/-! ## What a value costs -/

/-- `"`, `[` and `%`. -/
def quotes : CString := ['"'.toUInt8, '['.toUInt8, '%'.toUInt8]

/-- The bytes stand for themselves in front of one of `termset`. -/
structure Raw (termset s : CString) : Prop where
  inside : ∀ c ∈ s, c ∉ termset
  head : ∀ c ∈ s.head?, c ∉ quotes

theorem length_bstrtoll_le (str : CString) : (bstrtoll str).2.length ≤ str.length := by
  have hdrop := (List.dropWhile_sublist isSpace (l := str)).length_le
  simp only [bstrtoll, List.length_drop]
  omega

theorem readBrackets_length {balance : Nat} {p subparam rest : CString}
    (h : readBrackets balance p = some (subparam, rest)) :
    subparam.length + rest.length < p.length := by
  induction p generalizing balance subparam with
  | nil => cases h
  | cons c p ih =>
    simp only [readBrackets] at h
    split at h
    · cases h
      simp
    · obtain ⟨⟨sub', rest'⟩, hread, heq⟩ := Option.map_eq_some_iff.mp h
      cases heq
      have hlt : sub'.length + rest'.length < p.length := ih hread
      simp only [List.length_cons]
      omega

/-- Quoting costs bytes, so a value that costs none is raw. -/
theorem readSubparam_length {termset str subparam rest : CString}
    (h : readSubparam termset str = .ok (subparam, rest)) :
    subparam.length + rest.length ≤ str.length ∧
      (subparam.length + rest.length = str.length → Raw termset subparam) := by
  cases str with
  | nil =>
    cases h
    exact ⟨le_rfl, fun _ => ⟨nofun, nofun⟩⟩
  | cons c p =>
    simp only [readSubparam] at h
    split at h
    · split at h
      · rename_i d rest' hdrop
        cases h
        have hlength := congrArg List.length
          (List.takeWhile_append_dropWhile (p := (· ≠ '"'.toUInt8)) (l := p))
        simp only [List.length_append, hdrop, List.length_cons] at hlength ⊢
        omega
      · cases h
    · split at h
      · split at h
        · rename_i r hread
          cases h
          have hlt := readBrackets_length hread
          simp only [List.length_cons]
          omega
        · cases h
      · split at h
        · have hle := length_bstrtoll_le p
          split at h
          · rename_i d p' hp
            split at h
            · cases h
              rw [hp] at hle
              simp only [List.length_cons, List.length_take, List.length_drop] at hle ⊢
              omega
            · cases h
          · cases h
        · rename_i hquote hbracket hpercent
          cases h
          rw [← List.length_append, List.takeWhile_append_dropWhile]
          refine ⟨le_rfl, fun _ => ⟨fun d hd => ?_, fun d hd => ?_⟩⟩
          · simpa using List.mem_takeWhile_imp hd
          · rw [List.head?_takeWhile] at hd
            obtain rfl : c = d := by simpa using (Option.filter_eq_some_iff.mp hd).1
            simp [quotes, hquote, hbracket, hpercent]

/-! ## The list -/

/-- The body of the loop up to the value: the key, the value, and what follows them. -/
def readPair (param : CString) : Except ParseError ((CString × CString) × CString) := do
  let (key, param) ← readSubparam ['='.toUInt8] param
  match param with
  | c :: param =>
    if c = '='.toUInt8 then
      let (val, param) ← readSubparam [','.toUInt8, ':'.toUInt8] param
      return ((key, val), param)
    else throw .expectedValue
  | [] => throw .expectedValue

/-- A pair takes the place of an earlier one with its key, and comes last. -/
def setPair (lst : List (CString × CString)) (pair : CString × CString) :
    List (CString × CString) :=
  lst.eraseP (fun p => p.1 == pair.1) ++ [pair]

theorem readPair_cases {param rest : CString} {pair : CString × CString}
    (h : readPair param = .ok (pair, rest)) :
    ∃ rest', readSubparam ['='.toUInt8] param = .ok (pair.1, '='.toUInt8 :: rest') ∧
      readSubparam [','.toUInt8, ':'.toUInt8] rest' = .ok (pair.2, rest) := by
  unfold readPair at h
  cases hkey : readSubparam ['='.toUInt8] param with
  | error e =>
    rw [hkey] at h
    cases h
  | ok r =>
    obtain ⟨key, _ | ⟨c, rest'⟩⟩ := r
    · rw [hkey] at h
      cases h
    · rw [hkey] at h
      simp only [bind, Except.bind] at h
      split at h
      · rename_i hc
        cases hval : readSubparam [','.toUInt8, ':'.toUInt8] rest' with
        | error e =>
          rw [hval] at h
          cases h
        | ok r' =>
          rw [hval] at h
          cases h
          exact ⟨rest', by rw [hc], hval⟩
      · cases h

theorem readPair_length {param rest : CString} {pair : CString × CString}
    (h : readPair param = .ok (pair, rest)) :
    pair.1.length + pair.2.length + 1 + rest.length ≤ param.length ∧
      (pair.1.length + pair.2.length + 1 + rest.length = param.length →
        Raw [','.toUInt8, ':'.toUInt8] pair.2) := by
  obtain ⟨rest', hkey, hval⟩ := readPair_cases h
  have hk := (readSubparam_length hkey).1
  obtain ⟨hv, hraw⟩ := readSubparam_length hval
  rw [List.length_cons] at hk
  exact ⟨by omega, fun heq => hraw (by omega)⟩

/-- `parse_keyvalue_list` for an option that is set as a whole, where `lst` was read
    from the bytes before. -/
def parseKeyvalueList (lst : List (CString × CString)) (param : CString) :
    Except ParseError (List (CString × CString)) :=
  if param = [] then .ok lst
  else match _h : readPair param with
    | .error e => .error e
    | .ok (pair, []) => .ok (setPair lst pair)
    | .ok (pair, c :: rest) =>
      if c = ','.toUInt8 ∨ c = ':'.toUInt8 then parseKeyvalueList (setPair lst pair) rest
      else .error (.garbage (c :: rest))
termination_by param.length
decreasing_by
  have hlength := (readPair_length _h).1
  rw [List.length_cons] at hlength
  omega

section parseKeyvalueList

variable {lst lst' : List (CString × CString)} {pair : CString × CString} {param : CString}

theorem parseKeyvalueList_nil : parseKeyvalueList lst [] = .ok lst := by
  rw [parseKeyvalueList]
  simp

theorem parseKeyvalueList_last (h : readPair param = .ok (pair, [])) (hne : param ≠ []) :
    parseKeyvalueList lst param = .ok (setPair lst pair) := by
  rw [parseKeyvalueList, if_neg hne]
  split <;> simp_all

theorem parseKeyvalueList_cons {rest : CString}
    (h : readPair param = .ok (pair, ','.toUInt8 :: rest)) (hne : param ≠ []) :
    parseKeyvalueList lst param = parseKeyvalueList (setPair lst pair) rest := by
  rw [parseKeyvalueList, if_neg hne]
  split <;> simp_all

/-! ## What a list costs -/

/-- The bytes of the pairs, each with its `=` and a separator. -/
def weight (lst : List (CString × CString)) : Nat :=
  (lst.map fun p => p.1.length + p.2.length + 2).sum

theorem weight_setPair_le (lst : List (CString × CString)) (pair : CString × CString) :
    weight (setPair lst pair) ≤ weight lst + (pair.1.length + pair.2.length + 2) := by
  have hsub := (List.eraseP_sublist (p := fun p => p.1 == pair.1) (l := lst)).map
    fun p => p.1.length + p.2.length + 2
  have hsum := hsub.sum_le_sum fun _ _ => Nat.zero_le _
  simpa [weight, setPair] using hsum

theorem mem_setPair {p : CString × CString} (h : p ∈ setPair lst pair) : p ∈ lst ∨ p = pair := by
  rcases List.mem_append.mp h with h | h
  · exact .inl (List.mem_of_mem_eraseP h)
  · exact .inr (List.mem_singleton.mp h)

/-- What was read is no longer than the option, and as long only where every value
    is raw. -/
theorem weight_le (h : parseKeyvalueList lst param = .ok lst') :
    weight lst' ≤ weight lst + param.length + 1 ∧
      (weight lst' = weight lst + param.length + 1 →
        ∀ p ∈ lst', p ∈ lst ∨ Raw [','.toUInt8, ':'.toUInt8] p.2) := by
  fun_induction parseKeyvalueList lst param with
  | case1 lst =>
    cases h
    exact ⟨by simp, fun heq => by simp at heq⟩
  | case2 lst param hne e hread => cases h
  | case3 lst param hne pair hread =>
    cases h
    obtain ⟨hle, hraw⟩ := readPair_length hread
    have hset := weight_setPair_le lst pair
    rw [List.length_nil] at hle hraw
    refine ⟨by omega, fun heq p hp => ?_⟩
    rcases mem_setPair hp with hp | rfl
    · exact .inl hp
    · exact .inr (hraw (by omega))
  | case4 lst param hne pair c rest hread hc ih =>
    obtain ⟨hle, hraw⟩ := readPair_length hread
    obtain ⟨hrest, hrestRaw⟩ := ih h
    have hset := weight_setPair_le lst pair
    rw [List.length_cons] at hle hraw
    refine ⟨by omega, fun heq p hp => ?_⟩
    rcases hrestRaw (by omega) p hp with hp | hp
    · rcases mem_setPair hp with hp | rfl
      · exact .inl hp
      · exact .inr (hraw (by omega))
    · exact .inr hp
  | case5 lst param hne pair c rest hread hc => cases h

/-! ## Raw pairs -/

theorem readSubparam_raw {termset s rest : CString} (h : Raw termset s)
    (hrest : ∀ c ∈ rest.head?, c ∈ termset) (hquotes : termset.all (· ∉ quotes)) :
    readSubparam termset (s ++ rest) = .ok (s, rest) := by
  have htake : (s ++ rest).takeWhile (· ∉ termset) = s ∧
      (s ++ rest).dropWhile (· ∉ termset) = rest := by
    have hs : ∀ c ∈ s, (decide (c ∉ termset)) = true := by simpa using h.inside
    rw [List.takeWhile_append_of_pos hs, List.dropWhile_append_of_pos hs]
    cases rest with
    | nil => simp
    | cons c rest =>
      have hc : c ∈ termset := hrest c rfl
      simp [hc]
  cases hstr : s ++ rest with
  | nil =>
    obtain ⟨rfl, rfl⟩ := List.append_eq_nil_iff.mp hstr
    rfl
  | cons c p =>
    -- the first byte is one of `s`, or terminates it
    have hc : c ∉ quotes := by
      cases s with
      | nil =>
        rw [List.nil_append] at hstr
        have hterm := hrest c (by rw [hstr]; rfl)
        simpa using List.all_eq_true.mp hquotes c hterm
      | cons d s =>
        obtain ⟨rfl, -⟩ := List.cons.inj hstr
        exact h.head _ rfl
    rw [hstr] at htake
    simp only [quotes, List.mem_cons, List.not_mem_nil, or_false, not_or] at hc
    simp only [readSubparam, hc, if_false, htake]

/-- The pair as it stands in the option. -/
def printPair (pair : CString × CString) : CString := pair.1 ++ '='.toUInt8 :: pair.2

theorem weight_eq (lst : List (CString × CString)) :
    weight lst = ((lst.map printPair).map List.length).sum + (lst.map printPair).length := by
  induction lst with
  | nil => rfl
  | cons p lst ih =>
    simp only [weight, printPair, List.map_cons, List.sum_cons, List.length_cons,
      List.length_append] at ih ⊢
    omega

/-- The pair needs no quoting. -/
def RawPair (pair : CString × CString) : Prop :=
  Raw ['='.toUInt8] pair.1 ∧ Raw [','.toUInt8, ':'.toUInt8] pair.2

theorem readPair_raw (rest : CString) (h : RawPair pair)
    (hrest : ∀ c ∈ rest.head?, c = ','.toUInt8) :
    readPair (printPair pair ++ rest) = .ok (pair, rest) := by
  have hkey : readSubparam ['='.toUInt8] (pair.1 ++ '='.toUInt8 :: (pair.2 ++ rest)) =
      .ok (pair.1, '='.toUInt8 :: (pair.2 ++ rest)) := by
    refine readSubparam_raw h.1 (fun c hc => ?_) (by decide)
    cases hc
    exact List.mem_singleton_self _
  have hval : readSubparam [','.toUInt8, ':'.toUInt8] (pair.2 ++ rest) = .ok (pair.2, rest) := by
    refine readSubparam_raw h.2 (fun c hc => ?_) (by decide)
    rw [hrest c hc]
    exact List.mem_cons_self
  simp only [readPair, printPair, List.append_assoc, List.cons_append, hkey, bind, Except.bind,
    if_true, hval]
  rfl

theorem setPair_of_new (h : ∀ p ∈ lst, p.1 ≠ pair.1) : setPair lst pair = lst ++ [pair] := by
  rw [setPair, List.eraseP_of_forall_not]
  simpa using h

/-- Raw pairs with keys of their own are read as they stand. -/
theorem parseKeyvalueList_intercalate {pairs : List (CString × CString)}
    (hraw : ∀ p ∈ pairs, RawPair p) (hkeys : ((lst ++ pairs).map Prod.fst).Nodup) :
    parseKeyvalueList lst ([','.toUInt8].intercalate (pairs.map printPair)) =
      .ok (lst ++ pairs) := by
  induction pairs generalizing lst with
  | nil => simp [parseKeyvalueList_nil]
  | cons p pairs ih =>
    have hp := hraw p List.mem_cons_self
    have hne (rest : CString) : printPair p ++ rest ≠ [] := by simp [printPair]
    have hnew : ∀ q ∈ lst, q.1 ≠ p.1 := by
      intro q hq heq
      rw [List.map_append, List.nodup_append] at hkeys
      exact hkeys.2.2 q.1 (List.mem_map_of_mem hq) p.1 (by simp) heq
    cases pairs with
    | nil =>
      have hread := readPair_raw [] hp nofun
      rw [List.append_nil] at hread
      rw [List.map_singleton, List.intercalate_singleton,
        parseKeyvalueList_last hread (by simpa using hne []), setPair_of_new hnew]
    | cons q pairs =>
      have hread := readPair_raw (','.toUInt8 ::
        [','.toUInt8].intercalate ((q :: pairs).map printPair)) hp (by simp)
      rw [List.map_cons, List.map_cons, List.intercalate_cons_cons, List.append_assoc,
        List.singleton_append, ← List.map_cons, parseKeyvalueList_cons hread (hne _),
        setPair_of_new hnew, ih (fun r hr => hraw r (List.mem_cons_of_mem _ hr))
          (by simpa using hkeys), List.append_assoc, List.singleton_append]

end parseKeyvalueList

end Mpv
