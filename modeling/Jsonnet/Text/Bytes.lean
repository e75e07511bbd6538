/-!
# Bytes of characters

Positions in source texts and lengths of paths are counted in the bytes that the
characters take.
-/

namespace Jsonnet.Text

/-- The number of bytes of some characters. -/
def byteCount (cs : List Char) : Nat := cs.foldr (fun c count => c.utf8Size + count) 0

@[simp]
theorem byteCount_nil :
  byteCount [] = 0
  := rfl

end Jsonnet.Text
