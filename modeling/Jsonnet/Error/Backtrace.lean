import Jsonnet.Source.Span

/-!
# Backtraces

A backtrace tells which computations were going on when an error was raised, the
innermost first. A long one is written with its middle left out.
-/

namespace Jsonnet

/-- One line of a backtrace: what was going on, and where if that is known. -/
structure TraceLine where
  context : String
  file : Option String
  span : Option Span
  deriving DecidableEq, Repr, Inhabited

/-- The text of a line: the position, or `<builtin>` without one, and the context. -/
def TraceLine.text (line : TraceLine) : String :=
  match line.file, line.span with
  | some file, some span => file ++ ":" ++ span.describe ++ "\t" ++ line.context
  | some file, none => file ++ "\t" ++ line.context
  | none, _ => "<builtin>\t" ++ line.context

/-- The computations that were going on, innermost first. -/
structure Backtrace where
  lines : List TraceLine
  deriving DecidableEq, Repr, Inhabited

namespace Backtrace

/-- The number of lines. -/
def size (trace : Backtrace) : Nat := trace.lines.length

/-- Whether there is no line. -/
def isEmpty (trace : Backtrace) : Bool := trace.lines.isEmpty

/-- Every line indented and ended. -/
def indented (lines : List String) : String :=
  String.join (lines.map fun line => "\t" ++ line ++ "\n")

/-- The text of a backtrace with at most `limit` lines, the outer half and the inner
half of them, with a mark between the halves; the limit 0 shows all lines. -/
def render (trace : Backtrace) (limit : Nat) : String :=
  let lines := trace.lines.map TraceLine.text
  if limit = 0 ∨ lines.length ≤ limit then
    indented lines
  else
    let inner := limit / 2
    let outer := limit - inner
    indented (lines.take inner ++ "..." :: lines.drop (lines.length - outer))

end Backtrace

end Jsonnet
