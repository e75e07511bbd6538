import Jsonnet.Text.Escaped
import Jsonnet.Value.Object

/-!
# Descriptions of values

The short texts that show what a value is without computing anything. Numbers and
strings are shown as they are, everything larger by its size, and a deferred value by
what it waits for.
-/

namespace Jsonnet

/-- The text that shows a function. -/
def Function.describe : Function → String
  | .closure _ params _ => s!"Closure(arity={params.length})"
  | .builtin b => s!"Builtin({b.name})"

/-- The text that shows an object: the number of fields of a literal, or the number of
literals of an extended object. -/
def Object.describe : Object → String
  | .leaf l => s!"SimpleObject(fields={l.fields.length})"
  | .join _ size _ _ _ => s!"ExtendedObject(size={size})"

/-- The text that shows a value. -/
def Value.describe : Value → String
  | .null => "Null"
  | .bool value => s!"Bool({value})"
  | .number value => s!"Number({numberText value})"
  | .string value => "Str(" ++ Text.escaped value ++ ")"
  | .array elements => s!"Array(len={elements.size})"
  | .function f => f.describe
  | .object o => o.describe

/-- The text that shows a computation that waits. -/
def Suspension.describe : Suspension → String
  | .code _ _ body => s!"Expr({body.root.describe})"
  | .call f _ _ => s!"Call({f.describe})"

/-- The text that shows what a thunk stands for. -/
def Cell.describe : Cell → String
  | .pending suspension => suspension.describe
  | .ready value => s!"Ready({value.describe})"

/-- The text that shows a deferred value, given the cells of the thunks. -/
def Deferred.describe (thunks : Array Cell) : Deferred → String
  | .ready value => s!"Ready({value.describe})"
  | .suspended suspension => suspension.describe
  | .shared thunk => s!"Cached({(thunks[thunk.index]?.getD default).describe})"
  | .failed failure => s!"Error({failure.text})"

/-- The text that shows a scope. -/
def Scope.describe (scope : Scope) : String := s!"BindingFrame(depth={scope.depth})"

end Jsonnet
