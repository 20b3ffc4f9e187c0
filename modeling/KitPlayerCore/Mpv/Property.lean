-- SUMMARY: How `mpv_get_property` stores a double, and that it stores nothing where it fails.
import KitPlayerCore.Mpv.Client

/-!
# Properties

A property answers with a node, or with a string that stands for it. A caller that asks for
a double passes the address of a variable.
-/

namespace Mpv

/-- `M_PROPERTY_OK` and the other results of a property. -/
inductive PropertyResult where
  | ok | error | unavailable | notImplemented | unknown | invalidFormat
  deriving DecidableEq, Repr

/-- `mpv_node`, as far as a double can be read from it. -/
inductive Node where
  | double (x : Float)
  | int64 (n : Int)
  /-- `MPV_FORMAT_STRING`, `MPV_FORMAT_FLAG`, and the formats of lists and maps. -/
  | other

/-- What the property answers now to `M_PROPERTY_GET_NODE` and `M_PROPERTY_GET_STRING`. -/
structure Property where
  node : PropertyResult
  /-- The node that is stored where the result is `M_PROPERTY_OK`. -/
  value : Node := .other
  string : PropertyResult := .notImplemented

/-- `MPV_ERROR_PROPERTY_UNAVAILABLE`. -/
def errorPropertyUnavailable : Int := -10

/-- `translate_property_error`. -/
def translatePropertyError : PropertyResult → Int
  | .ok => 0
  -- MPV_ERROR_PROPERTY_ERROR
  | .error | .notImplemented => -11
  | .unavailable => errorPropertyUnavailable
  -- MPV_ERROR_PROPERTY_NOT_FOUND
  | .unknown => -8
  -- MPV_ERROR_PROPERTY_FORMAT
  | .invalidFormat => -9

/-- `conv_node_to_format` for `MPV_FORMAT_DOUBLE`: what it stores, if it stores anything. -/
def Node.toDouble : Node → Option Float
  | .double x => some x
  | .int64 n => some (Float.ofInt n)
  | .other => none

/-- `getproperty_fn` for `MPV_FORMAT_DOUBLE`: the status, and what the variable holds that
    has held `data` before. -/
def getPropertyFn (p : Property) (data : Float) : Int × Float :=
  let convert (node : Node) := match node.toDouble with
    | some x => (translatePropertyError .ok, x)
    | none => (translatePropertyError .invalidFormat, data)
  match p.node with
  | .ok => convert p.value
  | .notImplemented =>
    match p.string with
    | .ok => convert .other
    | err => (translatePropertyError err, data)
  | err => (translatePropertyError err, data)

/-- `mpv_get_property` for `MPV_FORMAT_DOUBLE`. -/
def getPropertyDouble (initialized : Bool) (p : Property) (data : Float) : Int × Float :=
  -- MPV_ERROR_UNINITIALIZED
  if initialized then getPropertyFn p data else (-3, data)

/-- What a caller gets that reads the variable only after a status that is no error. -/
def reported (initialized : Bool) (p : Property) : Except Int Float :=
  if (getPropertyDouble initialized p 0).1 < 0 then .error (getPropertyDouble initialized p 0).1
  else .ok (getPropertyDouble initialized p 0).2

/-! ## The variable of the caller -/

/-- The status is 0, and what is stored depends only on mpv. -/
def Stores (f : Float → Int × Float) : Prop := ∃ x, ∀ data, f data = (0, x)

/-- The status is an error, and the variable is left alone. -/
def Leaves (f : Float → Int × Float) : Prop := ∃ status < 0, ∀ data, f data = (status, data)

theorem translatePropertyError_neg {err : PropertyResult} (h : err ≠ .ok) :
    translatePropertyError err < 0 := by
  cases err with
  | ok => exact absurd rfl h
  | error | unavailable | notImplemented | unknown | invalidFormat => decide

theorem getPropertyFn_cases (p : Property) :
    Stores (getPropertyFn p) ∨ Leaves (getPropertyFn p) := by
  obtain ⟨node, value, string⟩ := p
  have hleaves (err : PropertyResult) (h : err ≠ .ok) :
      Leaves fun data => (translatePropertyError err, data) :=
    ⟨_, translatePropertyError_neg h, fun _ => rfl⟩
  cases node with
  | ok =>
    cases hvalue : value.toDouble with
    | some x =>
      refine .inl ⟨x, fun data => ?_⟩
      simp only [getPropertyFn, hvalue]
      rfl
    | none =>
      have heq : getPropertyFn ⟨.ok, value, string⟩ =
          fun data => (translatePropertyError .invalidFormat, data) := by
        funext data
        simp only [getPropertyFn, hvalue]
      exact .inr (heq ▸ hleaves _ nofun)
  | notImplemented =>
    right
    cases string with
    | ok => exact hleaves .invalidFormat nofun
    | error | unavailable | notImplemented | unknown | invalidFormat => exact hleaves _ nofun
  | error | unavailable | unknown | invalidFormat => exact .inr (hleaves _ nofun)

theorem getPropertyDouble_cases (initialized : Bool) (p : Property) :
    Stores (getPropertyDouble initialized p) ∨ Leaves (getPropertyDouble initialized p) := by
  cases initialized with
  | true => exact getPropertyFn_cases p
  | false => exact .inr ⟨-3, by decide, fun _ => rfl⟩

/-- What the variable holds after the call. -/
theorem reported_getD (initialized : Bool) (p : Property) (data : Float) :
    (reported initialized p).toOption.getD data = (getPropertyDouble initialized p data).2 := by
  rcases getPropertyDouble_cases initialized p with ⟨x, h⟩ | ⟨status, hstatus, h⟩
  · simp [reported, h, Except.toOption]
  · simp [reported, h, hstatus, Except.toOption]

end Mpv
