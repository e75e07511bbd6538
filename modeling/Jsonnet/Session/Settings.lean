import Jsonnet.FrontEnd
import Jsonnet.Import.Importer

/-!
# Settings

What is fixed before a program runs: limits, external variables, arguments for the
program, and where imports and compiled code come from.
-/

namespace Jsonnet

/-- The limits of an evaluation and whether its steps are counted. -/
structure Settings where
  /-- The greatest number of frames. -/
  maxStack : Nat := 500
  /-- The greatest number of lines of a backtrace that is shown; 0 shows all. -/
  maxTrace : Nat := 20
  profile : Bool := false
  deriving DecidableEq, Repr, Inhabited

/-- The text that shows settings. -/
def Settings.describe (settings : Settings) : String :=
  s!"EvalConfig \x7b max_stack: {settings.maxStack}, max_trace: {settings.maxTrace}, " ++
    s!"profile: {settings.profile} \x7d"

/-- What an external variable or an argument of the program is given as. -/
inductive External where
  /-- A string, taken as it is. -/
  | text (value : String)
  /-- A program, compiled when it is first needed. -/
  | code (source : String)
  deriving DecidableEq, Repr, Inhabited

/-- The text that shows an external value. -/
def External.describe : External → String
  | .text value => "String(" ++ Text.escaped value ++ ")"
  | .code source => "Code(" ++ Text.escaped source ++ ")"

/-- Everything that is fixed before a program runs. Of external variables of one name
the last one counts. -/
structure Setup where
  settings : Settings
  externals : List (String × External)
  arguments : List (String × External)
  importer : Importer
  frontEnd : FrontEnd
  /-- Whether results of computations are kept for later uses. Switched off, a deferred
  value, a field or an import is computed again at every use. -/
  sharing : Bool

/-- The text of a list between brackets. -/
def bracketed (entries : List String) : String := "[" ++ ", ".intercalate entries ++ "]"

/-- The text that shows a named external value. -/
def describeExternal (entry : String × External) : String :=
  "(" ++ Text.escaped entry.1 ++ ", " ++ entry.2.describe ++ ")"

/-- The text that shows a setup. -/
def Setup.describe (setup : Setup) : String :=
  s!"InterpreterBuilder \x7b config: {setup.settings.describe}, ext_vars: " ++
    bracketed (setup.externals.map describeExternal) ++ ", tlas: " ++
    bracketed (setup.arguments.map describeExternal) ++ ", .. \x7d"

end Jsonnet
