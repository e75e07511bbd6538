import Jsonnet.Error.Backtrace
import Jsonnet.Error.Cause
import Jsonnet.Source.Location

/-!
# Failures

An evaluation fails because of a run-time error, because source text could not be
compiled, because of a program that a front end must not let through, or because what
it runs on breaks down.
-/

namespace Jsonnet

/-- An error that a front end reports, at a location if it has one. -/
structure StaticError where
  message : String
  location : Option Location
  deriving DecidableEq, Repr, Inhabited

/-- A failed evaluation. -/
inductive Failure where
  /-- An error of the running program, with the computations that were going on. -/
  | runtime (cause : Cause) (trace : Option Backtrace)
  | static (error : StaticError)
  /-- A program that breaks the rules a front end checks. -/
  | internal (message : String)
  /-- A front end or the machine that cannot go on. -/
  | breakdown (message : String)
  deriving DecidableEq, Repr, Inhabited

namespace Failure

/-- The cause, if the failure is a run-time error. -/
def cause? : Failure → Option Cause
  | .runtime cause _ => some cause
  | _ => none

/-- Whether the failure is neither an error of the program nor one of its text. -/
def isInternal : Failure → Bool
  | .internal _ | .breakdown _ => true
  | _ => false

/-- The kind of a failure: what happened, without the computations that were going on. -/
def kind : Failure → Failure
  | .runtime cause _ => .runtime cause none
  | other => other

/-- Whether there was no room for another frame. -/
def isOverflow : Failure → Bool
  | .runtime (.stackOverflow _) _ => true
  | _ => false

/-- The failure of a variable that nothing binds. -/
def unknownVariable (name : String) : Failure :=
  .internal s!"Unknown variable: {name} (should have been caught statically)"

/-- The failure in one line. -/
def text : Failure → String
  | .runtime cause _ => "RUNTIME ERROR: " ++ cause.message
  | .static error => "STATIC ERROR: " ++ error.message
  | .internal message | .breakdown message => "(CRASH) " ++ message

/-- The message of a run-time error, followed by its backtrace if that has a line. -/
def renderRuntime (cause : Cause) (trace : Option Backtrace) (limit : Nat) : String :=
  match trace with
  | some trace => if trace.isEmpty then cause.message else
    cause.message ++ "\n" ++ trace.render limit
  | none => cause.message

/-- The failure as it is reported to a user, with at most `limit` lines of its
backtrace. -/
def report (failure : Failure) (limit : Nat) : String :=
  match failure with
  | .runtime cause trace => "RUNTIME ERROR: " ++ renderRuntime cause trace limit
  | other => other.text

end Failure

end Jsonnet
