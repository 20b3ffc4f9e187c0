-- SUMMARY: When assigning headers or FFmpeg options replaces what earlier assignments left in mpv.
import KitPlayerCore.Core.AvOption
import KitPlayerCore.Core.Status
import KitPlayerCore.Mpv.Options

/-!
# Assigning

`setHeaderDic:` and `setAvOptionDic:` set an option of mpv only on some of their
paths. On the others, the value that an earlier assignment left stays in force.
-/

namespace Core

open Mpv Transition NSDictionary

/-! ## An object with the options of its handle -/

/-- The object, and the options in force in mpv. -/
structure Configured extends Record where
  options : Options := {}

/-- The effect of an operation, where setting an option takes effect if there is a
    handle. -/
def Configured.perform : (op : Op) → Configured → op.Res × Configured
  | .call (some _) (.setOptionString name data), s =>
    ((s.options.setOptionString name data).1,
      { s with options := (s.options.setOptionString name data).2 })
  | op, s =>
    ((Record.perform op s.toRecord).1, { s with toRecord := (Record.perform op s.toRecord).2 })

/-- Run a method to its end. -/
def Configured.after (p : Core Unit) (s : Configured) : Configured := (p.run Configured.perform s).2

inductive Assignment where
  | headerDic (dic : Option NSDictionary)
  | avOptionDic (dic : Option NSDictionary)

def Assignment.body : Assignment → Core Unit
  | .headerDic dic => setHeaderDic dic
  | .avOptionDic dic => setAvOptionDic dic

def Configured.assigns (s : Configured) (as : List Assignment) : Configured :=
  as.foldl (fun s a => s.after a.body) s

/-- The options that the assignment governs have the same values. -/
def Assignment.AgreeOn : Assignment → Options → Options → Prop
  | .headerDic _, o, o' =>
    o.userAgent = o'.userAgent ∧ o.httpHeaderFields = o'.httpHeaderFields
  | .avOptionDic _, o, o' => o.demuxerLavfO = o'.demuxerLavfO

/-- What a dictionary of FFmpeg options makes mpv parse. -/
def avOptionString (dic : NSDictionary) : CString :=
  (formatParToStr (some dic) "%@=%@,").utf8String

/-- The dictionary of headers has a user agent. The dictionary of FFmpeg options is
    not empty, and mpv can parse it. -/
def Assignment.Overwrites : Assignment → Prop
  | .headerDic dic => ∃ d, dic = some d ∧ d.valueForKey "User-Agent" ≠ none
  | .avOptionDic dic =>
    ∃ d lst, dic = some d ∧ d.entries ≠ [] ∧ parseKeyvalueList [] (avOptionString d) = .ok lst

/-! ## What an assignment does -/

/-- The string is empty for an empty dictionary only. -/
theorem formatParToStr_eq_empty_iff {formatStr mid : String} (hformat : Formats formatStr mid)
    (hmid : NSString.utf8 mid ≠ []) (dic : NSDictionary) :
    formatParToStr (some dic) formatStr = "" ↔ dic.entries = [] := by
  constructor
  · intro h
    have hutf8 := utf8_formatParToStr hformat dic
    rw [h] at hutf8
    by_contra hne
    obtain ⟨e, es, he⟩ := List.exists_cons_of_ne_nil hne
    have hkeys : dic.allKeys = e.1 :: es.map Prod.fst := by simp [allKeys, he]
    have hfield : (field mid dic e.1).utf8 = [] := by
      have hnil : ([] : List UInt8) = [','.toUInt8].intercalate (fields mid dic) := hutf8
      rw [fields, hkeys, List.map_cons] at hnil
      cases es with
      | nil => simpa using hnil.symm
      | cons e' es => simp [List.intercalate] at hnil
    simp [field] at hfield
    exact hmid hfield.2.1
  · intro h
    simp [formatParToStr, allKeys, h]

theorem entries_ne_nil_of_valueForKey {dic : NSDictionary} {key : NSString} (hplain : Plain key)
    (h : dic.valueForKey key ≠ none) : dic.entries ≠ [] := by
  intro hnil
  rw [valueForKey_plain hplain, objectForKey, hnil] at h
  exact h rfl

/-- What `setHeaderDic:` does to the options, where `dic` is given. -/
def headerOptions (dic : NSDictionary) (o : Options) : Options :=
  { o with
    userAgent := (dic.valueForKey "User-Agent").elim o.userAgent NSString.utf8String
    httpHeaderFields :=
      if dic.entries = [] then o.httpHeaderFields
      else parseStrList optionListSeparator
        (formatParToStr (some dic) "%@: %@,").utf8String }

/-- What `setAvOptionDic:` does to the options, where `dic` is given. -/
def avOptions (dic : NSDictionary) (o : Options) : Options :=
  if dic.entries = [] then o
  else match parseKeyvalueList [] (avOptionString dic) with
    | .ok lst => { o with demuxerLavfO := lst }
    | .error _ => o

variable {s : Configured} {h : Handle}

theorem options_setHeaderDic (hlive : s.obj.mpv = some h) (dic : NSDictionary) :
    (s.after (setHeaderDic (some dic))).options = headerOptions dic s.options := by
  have hempty := formatParToStr_eq_empty_iff formats_header (by decide) dic
  cases hua : dic.valueForKey "User-Agent" <;> by_cases he : dic.entries = []
  all_goals
    simp [Configured.after, setHeaderDic, hua, he, hempty, Configured.perform, Record.perform,
      Object.get, Object.set, hlive, headerOptions, cstr, Options.setOptionString_userAgent,
      Options.setOptionString_httpHeaderFields]

theorem options_setAvOptionDic (hlive : s.obj.mpv = some h) (dic : NSDictionary) :
    (s.after (setAvOptionDic (some dic))).options = avOptions dic s.options := by
  have hempty := formatParToStr_eq_empty_iff formats_avOption (by decide) dic
  by_cases he : dic.entries = []
  · simp [Configured.after, setAvOptionDic, he, hempty, Configured.perform, Record.perform,
      avOptions]
  · cases hparse : parseKeyvalueList [] (formatParToStr (some dic) "%@=%@,").utf8String <;>
      simp [Configured.after, setAvOptionDic, he, hempty, Configured.perform, Record.perform,
        Object.get, Object.set, hlive, avOptions, avOptionString, cstr,
        Options.setOptionString_demuxerLavfO, hparse]

/-- An assignment leaves the handle. -/
theorem mpv_after_assignment (hlive : s.obj.mpv = some h) (a : Assignment) :
    (s.after a.body).obj.mpv = some h := by
  cases a with
  | headerDic dic =>
    cases dic with
    | none => exact hlive
    | some dic =>
      cases hua : dic.valueForKey "User-Agent" <;>
        by_cases he : formatParToStr (some dic) "%@: %@," = "" <;>
        simp [Assignment.body, Configured.after, setHeaderDic, hua, he, Configured.perform,
          Record.perform, Object.get, Object.set, hlive]
  | avOptionDic dic =>
    by_cases he : formatParToStr dic "%@=%@," = "" <;>
      simp [Assignment.body, Configured.after, setAvOptionDic, he, Configured.perform,
        Record.perform, Object.get, Object.set, hlive]

theorem mpv_assigns (hlive : s.obj.mpv = some h) (as : List Assignment) :
    (s.assigns as).obj.mpv = some h := by
  induction as generalizing s with
  | nil => exact hlive
  | cons a as ih => exact ih (mpv_after_assignment hlive a)

theorem assigns_concat (s : Configured) (as : List Assignment) (a : Assignment) :
    s.assigns (as ++ [a]) = (s.assigns as).after a.body := by
  simp [Configured.assigns]

/-! ## Overwriting -/

theorem agreeOn_of_overwrites {s s' : Configured} {h h' : Handle} {a : Assignment}
    (ha : a.Overwrites) (hlive : s.obj.mpv = some h) (hlive' : s'.obj.mpv = some h') :
    a.AgreeOn (s.after a.body).options (s'.after a.body).options := by
  cases a with
  | headerDic dic =>
    obtain ⟨d, rfl, hua⟩ := ha
    have hne := entries_ne_nil_of_valueForKey (by decide) hua
    obtain ⟨ua, hua⟩ := Option.ne_none_iff_exists'.mp hua
    simp only [Assignment.body, options_setHeaderDic hlive, options_setHeaderDic hlive']
    simp [Assignment.AgreeOn, headerOptions, hua, hne]
  | avOptionDic dic =>
    obtain ⟨d, lst, rfl, hne, hparse⟩ := ha
    simp only [Assignment.body, options_setAvOptionDic hlive, options_setAvOptionDic hlive']
    simp [Assignment.AgreeOn, avOptions, hne, hparse]

/-- A user agent that was in force stays in force. -/
theorem userAgent_after {dic : Option NSDictionary} (ha : ¬ (Assignment.headerDic dic).Overwrites)
    (hlive : s.obj.mpv = some h) :
    (s.after (Assignment.headerDic dic).body).options.userAgent = s.options.userAgent := by
  cases dic with
  | none => rfl
  | some d =>
    have hua : d.valueForKey "User-Agent" = none := by
      by_contra hne
      exact ha ⟨d, rfl, hne⟩
    rw [Assignment.body, options_setHeaderDic hlive]
    simp [headerOptions, hua]

/-- FFmpeg options that were in force stay in force. -/
theorem demuxerLavfO_after {dic : Option NSDictionary}
    (ha : ¬ (Assignment.avOptionDic dic).Overwrites) (hlive : s.obj.mpv = some h) :
    (s.after (Assignment.avOptionDic dic).body).options.demuxerLavfO = s.options.demuxerLavfO := by
  cases dic with
  | none => rfl
  | some d =>
    rw [Assignment.body, options_setAvOptionDic hlive, avOptions]
    split
    · rfl
    · rename_i hne
      split
      · rename_i lst hparse
        exact absurd ⟨d, lst, rfl, hne, hparse⟩ ha
      · rfl

/-! ## Leaks -/

/-- A dictionary with one entry. -/
def single (key value : NSString) : NSDictionary := ⟨[(key, value)], by simp, fun _ => none⟩

theorem userAgent_single (hlive : s.obj.mpv = some h) (ua : NSString) :
    (s.assigns [.headerDic (some (single "User-Agent" ua))]).options.userAgent =
      ua.utf8String := by
  have hua : (single "User-Agent" ua).valueForKey "User-Agent" = some ua :=
    valueForKey_of_mem (by decide) List.mem_cons_self
  simp only [Configured.assigns, List.foldl_cons, List.foldl_nil, Assignment.body,
    options_setHeaderDic hlive]
  simp [headerOptions, hua]

theorem demuxerLavfO_single (hlive : s.obj.mpv = some h) {key value : NSString}
    (hkeys : OptionKeys (single key value)) (hvalue : Unquoted value) :
    (s.assigns [.avOptionDic (some (single key value))]).options.demuxerLavfO =
      [(key.trim.utf8, value.trim.utf8)] := by
  have hvalues : ∀ e ∈ (single key value).entries, Unquoted e.2 :=
    fun e he => List.mem_singleton.mp he ▸ hvalue
  obtain ⟨lst, hparse, hperm⟩ :=
    roundTrip_of_unquoted hkeys hvalues (single key value) (List.Perm.refl _)
  have hne : (single key value).entries ≠ [] := List.cons_ne_nil _ _
  rw [Configured.assigns, List.foldl_cons, List.foldl_nil, Assignment.body,
    options_setAvOptionDic hlive, avOptions, if_neg hne, avOptionString, hparse]
  exact List.perm_singleton.mp hperm

/-- The last assignment leaves the same values after every two histories, exactly if it
    overwrites the options that it governs. -/
theorem agreeOn_iff_overwrites (hlive : s.obj.mpv = some h) (final : Assignment) :
    (∀ before before' : List Assignment,
      final.AgreeOn (s.assigns (before ++ [final])).options
        (s.assigns (before' ++ [final])).options) ↔ final.Overwrites := by
  simp only [assigns_concat]
  constructor
  · intro hagree
    by_contra ha
    cases final with
    | headerDic dic =>
      have heq := (hagree [.headerDic (some (single "User-Agent" "a"))]
        [.headerDic (some (single "User-Agent" "b"))]).1
      rw [userAgent_after ha (mpv_assigns hlive _), userAgent_after ha (mpv_assigns hlive _),
        userAgent_single hlive, userAgent_single hlive] at heq
      exact absurd heq (by decide)
    | avOptionDic dic =>
      have heq := hagree [.avOptionDic (some (single "k" "a"))]
        [.avOptionDic (some (single "k" "b"))]
      have hkeys (value : NSString) : OptionKeys (single "k" value) := by
        have hnonempty : NSString.trim "k" ≠ "" := by decide
        have halphanumeric : Alphanumeric (NSString.trim "k") := by decide
        exact ⟨fun e he => List.mem_singleton.mp he ▸ hnonempty,
          fun e he => List.mem_singleton.mp he ▸ halphanumeric, by simp [single]⟩
      have ha' : Unquoted "a" := ⟨by decide, by decide, by decide, by decide⟩
      have hb' : Unquoted "b" := ⟨by decide, by decide, by decide, by decide⟩
      rw [Assignment.AgreeOn, demuxerLavfO_after ha (mpv_assigns hlive _),
        demuxerLavfO_after ha (mpv_assigns hlive _), demuxerLavfO_single hlive (hkeys _) ha',
        demuxerLavfO_single hlive (hkeys _) hb'] at heq
      exact absurd heq (by decide)
  · intro ha before before'
    exact agreeOn_of_overwrites ha (mpv_assigns hlive before) (mpv_assigns hlive before')

/-- A live object whose user agent is replaced. -/
theorem agreeOn_single_userAgent :
    (Assignment.headerDic (some (single "User-Agent" "b"))).AgreeOn
      (Configured.assigns { obj := { mpv := some 1 } } ([.headerDic (some (single "User-Agent" "a"))]
        ++ [.headerDic (some (single "User-Agent" "b"))])).options
      (Configured.assigns { obj := { mpv := some 1 } }
        ([] ++ [.headerDic (some (single "User-Agent" "b"))])).options := by
  have hover : (Assignment.headerDic (some (single "User-Agent" "b"))).Overwrites :=
    ⟨_, rfl, by decide⟩
  exact (agreeOn_iff_overwrites rfl _).mpr hover _ _

/-- A user agent stays in force for the next item, which is given none. -/
theorem not_agreeOn_without_userAgent :
    ¬ ∀ (s : Configured) (final : Assignment) (before before' : List Assignment),
      s.obj.mpv ≠ none →
      final.AgreeOn (s.assigns (before ++ [final])).options
        (s.assigns (before' ++ [final])).options := by
  intro hagree
  have heq := (hagree { obj := { mpv := some 1 } } (.headerDic none)
    [.headerDic (some (single "User-Agent" "a"))] [] nofun).1
  have hnil : ¬ (Assignment.headerDic none).Overwrites := nofun
  rw [assigns_concat, assigns_concat, userAgent_after hnil (mpv_assigns rfl _),
    userAgent_after hnil (mpv_assigns rfl _), userAgent_single rfl] at heq
  exact absurd heq (by decide)

end Core
