import Mathlib.Algebra.Ring.Nat
import Jsonnet.FrontEnd

/-!
# Positions in source texts

The reader of a front end reports an error by line and column, and the front end looks up the byte
offset of the two. Looking up the line and the column of a position leads back to that position,
and whatever line and column are looked up, the offset stays inside the text. So the span of an
error is at the last byte that was read.
-/

namespace Jsonnet

/-! ### Pieces of texts -/

namespace Text

/-- The bytes of some characters. -/
def bytes (cs : List Char) : List UInt8 := cs.flatMap String.utf8EncodeChar

end Text

namespace Json

variable {source : List UInt8} {start position : Nat}

theorem linesLength_zero (source : List UInt8) :
  linesLength 0 source = 0
  := by rw [linesLength]

/-- Whether the line of a position begins at `start`: at the beginning of the text or behind a
line break, with no line break between the two. -/
structure BeginsLine (source : List UInt8) (start position : Nat) : Prop where
  le : start ≤ position
  edge : start = 0 ∨ source[start - 1]? = some lineBreak
  unbroken : lineBreak ∉ (source.take position).drop start

/-- Whole lines are as many as the line breaks in them. -/
theorem linesLength_of_whole {lines : List UInt8}
    (whole : lines = [] ∨ lines.getLast? = some lineBreak) (rest : List UInt8) :
  linesLength (lines.count lineBreak) (lines ++ rest) = lines.length
  := by
  induction lines with
  | nil => exact linesLength_zero rest
  | cons byte lines ih =>
    have last := whole.resolve_left (List.cons_ne_nil byte lines)
    have whole' : lines = [] ∨ lines.getLast? = some lineBreak := by
      cases lines with
      | nil => exact .inl rfl
      | cons => exact .inr (by rwa [List.getLast?_cons_cons] at last)
    rw [List.cons_append, List.count_cons, List.length_cons]
    by_cases breaks : byte = lineBreak
    · rw [if_pos (beq_iff_eq.mpr breaks), linesLength, if_pos breaks, ih whole', Nat.add_comm]
    · -- Another line break follows, so the first line goes on.
      have more : lineBreak ∈ lines :=
        List.mem_of_ne_of_mem (Ne.symm breaks) (List.mem_of_getLast? last)
      obtain ⟨count, counts⟩ := Nat.exists_eq_add_one.mpr (List.count_pos_iff.mpr more)
      rw [if_neg (by rwa [beq_iff_eq]), Nat.add_zero, counts, linesLength, if_neg breaks, ← counts,
        ih whole', Nat.add_comm]

/-- The text in front of a position is made up of whole lines and the part of its own line. -/
theorem exists_lines (read : List UInt8) :
  ∃ lines line, read = lines ++ line ∧ (lines = [] ∨ lines.getLast? = some lineBreak) ∧
    lineBreak ∉ line ∧ line.length = (read.reverse.takeWhile (· != lineBreak)).length
  := by
  refine ⟨(read.reverse.dropWhile (· != lineBreak)).reverse,
    (read.reverse.takeWhile (· != lineBreak)).reverse, ?_, ?_, ?_, List.length_reverse⟩
  · rw [← List.reverse_append, List.takeWhile_append_dropWhile, List.reverse_reverse]
  · rw [List.reverse_eq_nil_iff, List.getLast?_reverse]
    cases skipped : read.reverse.dropWhile (· != lineBreak) with
    | nil => exact .inl rfl
    | cons byte rest =>
      have first := List.head?_dropWhile_not (· != lineBreak) read.reverse
      rw [skipped, List.head?_cons] at first
      exact .inr (by simpa using first)
  · intro member
    have kept := List.all_eq_true.mp List.all_takeWhile _ (List.mem_reverse.mp member)
    simp at kept

/-- The line of a position begins as many bytes before it as its column says. -/
theorem beginsLine_columnAt (inside : position ≤ source.length) :
  BeginsLine source (position - columnAt source position) position
  := by
  obtain ⟨lines, line, split, whole, unbroken, length⟩ := exists_lines (source.take position)
  have size : position = lines.length + line.length := by
    rw [← List.length_append, ← split, List.length_take, Nat.min_eq_left inside]
  have begins : position - columnAt source position = lines.length := by
    rw [columnAt, ← length]
    omega
  rw [begins]
  constructor
  case le => omega
  case edge =>
    obtain rfl | last := whole
    · exact .inl rfl
    · have positive : 0 < lines.length := List.length_pos_iff.mpr (by rintro rfl; cases last)
      have here : (source.take position)[lines.length - 1]? = some lineBreak := by
        rw [split, List.getElem?_append_left (by omega), ← List.getLast?_eq_getElem?, last]
      rw [List.getElem?_take_of_lt (by omega)] at here
      exact .inr here
  case unbroken =>
    rw [split, List.drop_left]
    exact unbroken

namespace BeginsLine

variable (h : BeginsLine source start position)

include h

/-- The lines in front of the line of a position are as long as where that line begins. -/
theorem linesLength_eq (inside : position ≤ source.length) :
  linesLength (lineAt source position - 1) source = start
  := by
  have le := h.le
  have whole : source.take start = [] ∨ (source.take start).getLast? = some lineBreak := by
    obtain rfl | before := h.edge
    · exact .inl List.take_zero
    · by_cases first : start = 0
      · exact .inl (by rw [first, List.take_zero])
      · rw [List.getLast?_take, if_neg first, before]
        exact .inr rfl
  have count : (source.take position).count lineBreak = (source.take start).count lineBreak := by
    rw [← List.take_append_drop start (source.take position), List.count_append,
      List.count_eq_zero.mpr h.unbroken, List.take_take, Nat.min_eq_left le, Nat.add_zero]
  have lines := linesLength_of_whole whole (source.drop start)
  rw [List.take_append_drop, List.length_take, Nat.min_eq_left (by omega)] at lines
  rw [lineAt, Nat.add_sub_cancel_left, count, lines]

end BeginsLine

/-! ### Looking up positions -/

theorem byteOffset_lineAt (source : List UInt8) (position column : Nat) :
  byteOffset source (lineAt source position) column
    = min (linesLength (lineAt source position - 1) source + (column - 1)) source.length
  := by
  rw [byteOffset, if_neg]
  rw [lineAt]
  omega

theorem byteOffset_le (source : List UInt8) (line column : Nat) :
  byteOffset source line column ≤ source.length
  := by
  rw [byteOffset]
  split
  · exact Nat.zero_le _
  · exact Nat.min_le_right _ _

example : byteOffset "ab\ncde\nf".toUTF8.toList 2 2 = 4 := by cbv

example : byteOffset "ab\ncde\nf".toUTF8.toList 9 9 = 8 := by cbv

theorem columnAt_le (inside : position ≤ source.length) :
  columnAt source position ≤ position
  := by
  calc
    columnAt source position ≤ (source.take position).reverse.length :=
      (List.takeWhile_sublist _).length_le
    _ = position := by rw [List.length_reverse, List.length_take, Nat.min_eq_left inside]

/-- The line and the column of what has been read, which count the last byte, lead to that byte.
Behind a line break the column is zero, and they lead to the next line. -/
theorem byteOffset_columnAt {read : Nat} (inside : read ≤ source.length) :
  byteOffset source (lineAt source read) (columnAt source read)
    = if columnAt source read = 0 then read else read - 1
  := by
  have whole := (beginsLine_columnAt inside).linesLength_eq inside
  have le := columnAt_le inside
  rw [byteOffset_lineAt, whole]
  split
  case isTrue first => omega
  case isFalse => omega

/-- The span of an error is empty. It stands at the last byte that was read or, if that is a line
break, behind it. -/
theorem staticError_location (fileName : String) (file : Name) (source : String)
    (error : ReadError) (small : source.toUTF8.toList.length < UInt32.size) :
  let bytes := source.toUTF8.toList
  let read := bytes.length - error.left
  let last := if columnAt bytes read = 0 then read else read - 1
  (staticError fileName file source error).location = some ⟨file, ⟨last.toUInt32, last.toUInt32⟩⟩
  := by
  intro bytes read last
  have inside : read ≤ bytes.length := Nat.sub_le _ _
  have offset : byteOffset bytes (lineAt bytes read) (columnAt bytes read) = last :=
    byteOffset_columnAt inside
  have fits : last < UInt32.size := by
    rw [← offset]
    exact Nat.lt_of_le_of_lt (byteOffset_le _ _ _) small
  have span : Span.ofPositions last last = .ok ⟨last.toUInt32, last.toUInt32⟩ := by
    rw [Span.ofPositions, if_pos fits, if_pos fits]
  simp only [staticError]
  rw [offset, span]

end Json

end Jsonnet
