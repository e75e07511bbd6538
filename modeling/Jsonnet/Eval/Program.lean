import Jsonnet.Eval.Expression

/-!
# Programs

A program is evaluated inside the outermost frame. If its value is a function, that is
called with the arguments given from outside, which are matched to parameters by name.
The value is then written out over several lines.
-/

namespace Jsonnet

open Jsonnet.Action

/-- The names of a function's parameters. -/
def parameterNames : Function → Action (List Name)
  | .closure _ params _ => return params
  | .builtin b => take (.internAll b.params)

/-- The values of the arguments for some parameters, in the order of the parameters;
`done` are those for the parameters before them, last first. -/
def matchArguments (given : List (Name × External)) (site : Location)
    (done : List Deferred) : List Name → Action (List Deferred)
  | [] => return done.reverse
  | param :: rest => do
    match given.lookup param with
    | none => raise (.missingArgument (← textOf param)) site
    | some external => do
      let value ← take (.argument param external)
      matchArguments given site (value :: done) rest

/-- The result of a program whose value is a function; any other value is the result
itself. An argument that no parameter takes is an error, and so is a parameter without
an argument. -/
def applyArguments (value : Value) (site : Location) : Action Value := do
  match value with
  | .function f => do
    let params ← parameterNames f
    let given := (← session).arguments
    match given.find? fun (name, _) => !params.contains name with
    | some (name, _) => raise (.unknownParameter (← textOf name)) site
    | none => do
      let arguments ← matchArguments given site [] params
      f.call arguments site
  | other => return other

/-- The result of a program, computed in the base environment. -/
def computeProgram (code : Code) : Action Value := do
  let value ← code.evaluate (← session).base
  applyArguments value code.location

/-- The text of the result of a program, ended by a line break. -/
def computeOutput (code : Code) : Action String := do
  let value ← computeProgram code
  return (← value.manifest .multiLine) ++ "\n"

/-- The result of a program. -/
def Code.value (code : Code) : Action Value :=
  inFrame ⟨code.location, .main⟩ (.program code)

/-- The text of the result of a program. -/
def Code.output (code : Code) : Action String :=
  inFrame ⟨code.location, .main⟩ (.output code)

end Jsonnet
