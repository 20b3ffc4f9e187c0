-- SUMMARY: How mpv checks that no argument of a command is missing.
import KitPlayerCore.Mpv.Client

/-!
# Commands

A command is rejected before it does anything if an argument is missing that it
requires. Only the arguments of `loadfile` are listed.
-/

namespace Mpv

/-- A command, and whether each of its arguments may be left out. -/
structure CommandDef where
  name : CString
  optional : List Bool

/-- The entry of `loadfile` in the table of commands: `url`, `flags` and `options`. -/
def loadfileDef : CommandDef where
  name := NSString.utf8String "loadfile"
  optional := [false, true, true]

/-- `finish_cmd` for a command that is given `nargs` arguments. -/
def CommandDef.finishCmd (d : CommandDef) (nargs : Nat) : Bool := (d.optional.drop nargs).all id

/-- `mpv_command` rejects the command for a missing argument. -/
def CommandDef.Rejects (d : CommandDef) (args : List CString) : Prop :=
  args.head? = some d.name ∧ d.finishCmd args.tail.length = false

end Mpv
