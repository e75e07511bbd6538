/-!
# Spans

A span is a range of bytes of one source file, its end excluded. Both ends are
32-bit words.
-/

namespace Jsonnet

/-- A range of bytes of a source file. -/
structure Span where
  start : UInt32
  stop : UInt32
  deriving DecidableEq, Repr, Inhabited

/-- A reason why a range of positions is not a span. -/
inductive SpanError where
  | startTooLarge (start : Nat)
  | endTooLarge (stop : Nat)
  deriving DecidableEq, Repr

namespace SpanError

/-- The text of the reason. -/
def message : SpanError → String
  | .startTooLarge start => s!"span start {start} exceeds u32::MAX"
  | .endTooLarge stop => s!"span end {stop} exceeds u32::MAX"

/-- The text that shows the reason as a term. -/
def describe : SpanError → String
  | .startTooLarge start => s!"StartTooLarge({start})"
  | .endTooLarge stop => s!"EndTooLarge({stop})"

end SpanError

namespace Span

/-- The span of code that was not written in any file. -/
def none : Span := ⟨0, 0⟩

/-- The span between two positions; a position that does not fit a word is refused,
the start first. -/
def ofPositions (start stop : Nat) : Except SpanError Span :=
  if start < UInt32.size then
    if stop < UInt32.size then .ok ⟨start.toUInt32, stop.toUInt32⟩
    else .error (.endTooLarge stop)
  else .error (.startTooLarge start)

/-- The number of bytes in the span. -/
def length (span : Span) : UInt32 := span.stop - span.start

/-- Whether the span holds no byte. -/
def isEmpty (span : Span) : Bool := span.start == span.stop

/-- The smallest span that covers both. -/
def merge (a b : Span) : Span :=
  ⟨if b.start < a.start then b.start else a.start, if a.stop < b.stop then b.stop else a.stop⟩

/-- The text of a span: its two ends. -/
def describe (span : Span) : String := s!"{span.start}..{span.stop}"

end Span

end Jsonnet
