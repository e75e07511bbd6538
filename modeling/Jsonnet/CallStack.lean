import Jsonnet.Error.Failure
import Jsonnet.Interner
import Jsonnet.Text.Escaped

/-!
# The call stack

A frame is pushed for every computation that a backtrace tells about: the program
itself, thunks, calls, fields, assertions, imports and external code. The number of
frames is limited.
-/

namespace Jsonnet

/-- What a frame is doing. -/
inductive FrameContext where
  /-- Evaluating the program. -/
  | main
  /-- Computing a local, an argument or an array element. -/
  | thunk (name : Name)
  /-- Running the body of a function of the program. -/
  | function
  | builtin (name : String)
  /-- Computing a field of an object. -/
  | field (name : Name)
  /-- Checking an assertion of an object. -/
  | assertion
  | importing (path : Name)
  | external (name : Name)
  /-- Computing an argument of the program. -/
  | topLevelArgument (name : Name)
  deriving DecidableEq, Repr, Inhabited

/-- The text of a context. -/
def FrameContext.describe (names : Interner) : FrameContext → String
  | .main => "<main>"
  | .thunk name => "thunk <" ++ names.lookup name ++ ">"
  | .function => "function <anonymous>"
  | .builtin name => "builtin function <" ++ name ++ ">"
  | .field name => "field <" ++ names.lookup name ++ ">"
  | .assertion => "object assertion"
  | .importing path => "import " ++ Text.escaped (names.lookup path)
  | .external name => "extVar <" ++ names.lookup name ++ ">"
  | .topLevelArgument name => "top-level argument <" ++ names.lookup name ++ ">"

/-- A computation that is going on, and where it was entered. -/
structure Frame where
  location : Location
  context : FrameContext
  deriving DecidableEq, Repr, Inhabited

/-- The line of a backtrace for a frame. -/
def Frame.traceLine (names : Interner) (frame : Frame) : TraceLine :=
  let context := frame.context.describe names
  if frame.location.isUnknown then ⟨context, none, none⟩
  else ⟨context, some (names.lookup frame.location.file), some frame.location.span⟩

/-- The frames of the computations that are going on, innermost first, and the number of
frames for which there is still room. -/
structure CallStack where
  frames : List Frame
  room : Nat
  deriving DecidableEq, Repr, Inhabited

namespace CallStack

/-- The stack without frames. -/
def new (limit : Nat) : CallStack := ⟨[], limit⟩

/-- The number of frames. -/
def depth (stack : CallStack) : Nat := stack.frames.length

/-- The greatest number of frames. -/
def limit (stack : CallStack) : Nat := stack.depth + stack.room

/-- Whether nothing is going on. -/
def isEmpty (stack : CallStack) : Bool := stack.frames.isEmpty

/-- The innermost frame. -/
def current? (stack : CallStack) : Option Frame := stack.frames.head?

/-- The stack with one frame more, if there is room. -/
def push? (stack : CallStack) (frame : Frame) : Option CallStack :=
  match stack.room with
  | 0 => none
  | room + 1 => some ⟨frame :: stack.frames, room⟩

/-- The stack without its innermost frame. -/
def pop (stack : CallStack) : CallStack :=
  match stack.frames with
  | [] => stack
  | _ :: frames => ⟨frames, stack.room + 1⟩

/-- Popping undoes pushing. -/
theorem pop_of_push? {stack stack' : CallStack} {frame : Frame}
    (h : stack.push? frame = some stack') :
  stack'.pop = stack
  := by
  obtain ⟨frames, room⟩ := stack
  cases room with
  | zero => simp [push?] at h
  | succ room =>
    simp only [push?, Option.some.injEq] at h
    subst h
    rfl

/-- The backtrace of an error raised at `site`: the site itself if it is known, under
the context of the innermost frame, and the frames from the innermost outwards. -/
def capture (stack : CallStack) (site : Location) (names : Interner) : Backtrace :=
  let context := (stack.current?.map Frame.context).getD .main
  let raised := if site.isUnknown then [] else [(⟨site, context⟩ : Frame)]
  ⟨(raised ++ stack.frames).map (Frame.traceLine names)⟩

/-- The failure with a cause, raised at `site`. -/
def failure (stack : CallStack) (cause : Cause) (site : Location) (names : Interner) :
    Failure :=
  .runtime cause (some (stack.capture site names))

/-- A run-time error without a backtrace gets one; a backtrace that is there is kept. -/
def attach (stack : CallStack) (failure : Failure) (site : Location) (names : Interner) :
    Failure :=
  match failure with
  | .runtime cause none => stack.failure cause site names
  | other => other

end CallStack

end Jsonnet
