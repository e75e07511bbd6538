import Jsonnet.Name
import Jsonnet.Source.Span

/-!
# Locations

A location is a span together with the file it belongs to. The location with the
empty file name and the span 0..0 stands for code without a known position.
-/

namespace Jsonnet

/-- A span of a file. -/
structure Location where
  file : Name
  span : Span
  deriving DecidableEq, Repr, Inhabited

namespace Location

/-- The location of code without a known position. -/
def unknown : Location := ⟨.empty, .none⟩

/-- Whether the position is not known. -/
def isUnknown (location : Location) : Bool := location == unknown

end Location

end Jsonnet
