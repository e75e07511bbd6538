import Jsonnet.Proofs.Rereading
import Jsonnet.Proofs.Outcomes

/-!
# The two layouts of a value

A value is written out in both layouts by the same run, and the text on one line is the text over
several lines, put on one line: at the end of a line that ends in a comma the next line follows
after one space, at the end of any other line it follows at once.
-/

namespace Jsonnet

/-! ### Putting a text on one line -/

namespace Text

/-- Puts a space in the place of every line break after a comma and of the spaces after it. -/
def joinEntries : List Char → List Char
  | ',' :: '\n' :: rest => ',' :: ' ' :: joinEntries (rest.dropWhile (· == ' '))
  | c :: rest => c :: joinEntries rest
  | [] => []
termination_by cs => cs.length
decreasing_by
  · have := (List.dropWhile_suffix (l := rest) (· == ' ')).length_le
    simp only [List.length_cons]
    omega
  · simp

/-- Deletes every line break and the spaces after it. -/
def dropBreaks : List Char → List Char
  | '\n' :: rest => dropBreaks (rest.dropWhile (· == ' '))
  | c :: rest => c :: dropBreaks rest
  | [] => []
termination_by cs => cs.length
decreasing_by
  · have := (List.dropWhile_suffix (l := rest) (· == ' ')).length_le
    simp only [List.length_cons]
    omega
  · simp

/-- Puts a text on one line: first the entries of its containers are joined, then the line breaks
that are left are deleted. -/
def oneLine (cs : List Char) : List Char := dropBreaks (joinEntries cs)

/-- Characters within one line that do not end in a comma. -/
structure Inline (cs : List Char) : Prop where
  unbroken : '\n' ∉ cs
  closed : cs.getLast? ≠ some ','

variable {cs rest : List Char}

theorem dropWhile_spaces (count : Nat) (solid : rest.head? ≠ some ' ') :
  (List.replicate count ' ' ++ rest).dropWhile (· == ' ') = rest
  := by
  rw [List.dropWhile_append_of_pos (fun c hc => by simp [List.eq_of_mem_replicate hc])]
  cases rest with
  | nil => rfl
  | cons c rest =>
    have hc : c ≠ ' ' := fun h => solid (congrArg some h)
    simp [hc]

theorem joinEntries_cons {c : Char} (h : c ≠ ',' ∨ rest.head? ≠ some '\n') :
  joinEntries (c :: rest) = c :: joinEntries rest
  := by
  rw [joinEntries]
  rintro others rfl rfl
  simp at h

theorem joinEntries_append (inline : Inline cs) :
  joinEntries (cs ++ rest) = cs ++ joinEntries rest
  := by
  induction cs with
  | nil => rfl
  | cons c others ih =>
    obtain ⟨unbroken, closed⟩ := inline
    rw [List.mem_cons, not_or] at unbroken
    cases others with
    | nil =>
      have hc : c ≠ ',' := fun h => closed (congrArg some h)
      exact joinEntries_cons (.inl hc)
    | cons d others =>
      have hd : d ≠ '\n' := fun h => unbroken.2 (h ▸ List.mem_cons_self)
      have tail : Inline (d :: others) := ⟨unbroken.2, by rwa [List.getLast?_cons_cons] at closed⟩
      rw [List.cons_append, joinEntries_cons (.inr (by simpa using hd)), ih tail]
      rfl

theorem dropBreaks_append (unbroken : '\n' ∉ cs) :
  dropBreaks (cs ++ rest) = cs ++ dropBreaks rest
  := by
  induction cs with
  | nil => rfl
  | cons c others ih =>
    rw [List.mem_cons, not_or] at unbroken
    rw [List.cons_append, dropBreaks, ih unbroken.2]
    · rfl
    · rintro rfl
      exact unbroken.1 rfl

/-- What is put on one line is on one line. -/
theorem unbroken_dropBreaks (cs : List Char) :
  '\n' ∉ dropBreaks cs
  := by
  induction cs using dropBreaks.induct with
  | case1 rest ih =>
    rw [dropBreaks]
    exact ih
  | case2 c rest hc ih =>
    rw [dropBreaks.eq_2 c rest hc, List.mem_cons, not_or]
    exact ⟨fun h => hc h.symm, ih⟩
  | case3 => simp [dropBreaks]

/-- Nothing changes within a line. -/
theorem oneLine_append (inline : Inline cs) :
  oneLine (cs ++ rest) = cs ++ oneLine rest
  := by
  rw [oneLine, joinEntries_append inline, dropBreaks_append inline.unbroken, oneLine]

theorem oneLine_cons {c : Char} (h : c ≠ ',' ∧ c ≠ '\n') :
  oneLine (c :: rest) = c :: oneLine rest
  := by
  have inline : Inline [c] := ⟨by simpa using h.2.symm, by simpa using h.1⟩
  exact oneLine_append inline

theorem head?_joinEntries (cs : List Char) :
  (joinEntries cs).head? = cs.head?
  := by
  cases cs using joinEntries.fun_cases <;> simp_all [joinEntries]

/-- A new line follows at once. -/
theorem oneLine_newline (level : Nat) (solid : rest.head? ≠ some ' ') :
  oneLine (Layout.newline level rest) = oneLine rest
  := by
  have spaces : Inline (List.replicate (3 * level) ' ') := by
    constructor
    · simp [List.mem_replicate]
    · simp [List.getLast?_replicate]
  rw [oneLine, Layout.newline, joinEntries_cons (.inl (by decide)), joinEntries_append spaces,
    dropBreaks, dropWhile_spaces _ (by rwa [head?_joinEntries]), oneLine]

/-- A new line follows an entry after one space. -/
theorem oneLine_separator (level : Nat) (solid : rest.head? ≠ some ' ') :
  oneLine (Layout.separator .multiLine level rest) = Layout.separator .singleLine level (oneLine rest)
  := by
  rw [oneLine, Layout.separator, Layout.newline, joinEntries, dropWhile_spaces _ solid]
  have unbroken : '\n' ∉ [',', ' '] := by decide
  exact dropBreaks_append unbroken

/-! ### Strings and numbers -/

/-- A control character is escaped. -/
theorem unbroken_quoteChar (c : Char) :
  '\n' ∉ quoteChar c
  := by
  rw [quoteChar.eq_def]
  split
  case h_8 hne _ _ =>
    split
    case isTrue hcontrol =>
      have digits : ∀ n < 0x20, '\n' ∉ ['\\', 'u', '0', '0', Nat.digitChar (n / 16),
          Nat.digitChar (n % 16)] := by decide
      exact digits _ hcontrol
    case isFalse => simpa using fun h => hne h.symm
  all_goals decide

theorem inline_quoted (s : String) :
  Inline (quoted s).toList
  := by
  rw [quoted, String.toList_ofList]
  constructor
  · simp [unbroken_quoteChar]
  · rw [List.getLast?_concat]
    decide

end Text

/-- The text of a number stands on one line. -/
theorem Number.inline_text (x : Number) :
  Text.Inline (numberText x).toList
  := by
  have closed : ',' ∉ (numberText x).toList := by
    cases hnan : x.isNaN with
    | true =>
      rw [text_of_isNaN hnan]
      decide
    | false => exact fun h => absurd ((text_plain hnan).2 _ h) (by decide)
  constructor
  · exact fun h => absurd (x.text_solid _ h) (by decide)
  · exact fun h => closed (List.mem_of_getLast? h)

theorem Number.text_ne_nil (x : Number) :
  (numberText x).toList ≠ []
  := by
  cases hnan : x.isNaN with
  | true =>
    rw [text_of_isNaN hnan]
    decide
  | false =>
    obtain ⟨⟨c, cs, heq, -⟩, -⟩ := text_plain hnan
    rw [heq]
    exact List.cons_ne_nil c cs

/-! ### Documents -/

namespace Document

open Text

variable (level : Nat)

/-- The text of a document does not begin with a space. -/
theorem solid_write (layout : Layout) (rest : List Char) (document : Document) :
  (document.write layout level rest).head? ≠ some ' '
  := by
  match document with
  | .null | .bool true | .bool false | .array [] | .array (_ :: _) | .object [] | .object (_ :: _) =>
    intro h
    cases h
  | .string s =>
    rw [write, toList_quoted_append]
    intro h
    cases h
  | .number x =>
    obtain ⟨c, cs, heq⟩ := List.exists_cons_of_ne_nil x.text_ne_nil
    rw [write, heq]
    rintro ⟨⟩
    exact absurd (x.text_solid ' ' (heq ▸ List.mem_cons_self)) (by decide)

/-- A bracket, on a line of its own or not. -/
theorem oneLine_edge {c : Char} (h : c ≠ ',' ∧ c ≠ '\n' ∧ c ≠ ' ') (rest : List Char) :
  oneLine (Layout.edge .multiLine level (c :: rest))
    = Layout.edge .singleLine level (c :: oneLine rest)
  := by
  rw [Layout.edge, oneLine_newline level (by simpa using h.2.2), oneLine_cons ⟨h.1, h.2.1⟩]
  rfl

/-- A key and what follows it. -/
theorem oneLine_key (key : String) (rest : List Char) :
  oneLine ((quoted key).toList ++ ':' :: ' ' :: rest)
    = (quoted key).toList ++ ':' :: ' ' :: oneLine rest
  := by
  rw [oneLine_append (inline_quoted key), oneLine_cons (by decide), oneLine_cons (by decide)]

theorem solid_key (key : String) (rest : List Char) :
  ((quoted key).toList ++ rest).head? ≠ some ' '
  := by
  rw [toList_quoted_append]
  intro h
  cases h

mutual

/-- The text of a document over several lines, put on one line. -/
theorem oneLine_write : ∀ (level : Nat) (rest : List Char) (document : Document),
  oneLine (document.write .multiLine level rest) = document.write .singleLine level (oneLine rest)
  | _, _, .null => oneLine_append (⟨by decide, by decide⟩ : Inline ['n', 'u', 'l', 'l'])
  | _, _, .bool true => oneLine_append (⟨by decide, by decide⟩ : Inline ['t', 'r', 'u', 'e'])
  | _, _, .bool false => oneLine_append (⟨by decide, by decide⟩ : Inline ['f', 'a', 'l', 's', 'e'])
  | _, _, .number x => oneLine_append x.inline_text
  | _, _, .string s => oneLine_append (inline_quoted s)
  | _, _, .array [] => oneLine_append (⟨by decide, by decide⟩ : Inline ['[', ' ', ']'])
  | _, _, .object [] => oneLine_append (⟨by decide, by decide⟩ : Inline ['\x7b', ' ', '\x7d'])
  | level, rest, .array (first :: others) => by
    rw [write, oneLine_cons (by decide), Layout.edge,
      oneLine_newline _ (solid_write _ _ _ first), oneLine_write (level + 1) _ first,
      oneLine_writeElements level _ others, oneLine_edge level (by decide)]
    rfl
  | level, rest, .object ((key, first) :: others) => by
    rw [write, oneLine_cons (by decide), Layout.edge, oneLine_newline _ (solid_key key _), oneLine_key,
      oneLine_write (level + 1) _ first, oneLine_writeFields level _ others,
      oneLine_edge level (by decide)]
    rfl

theorem oneLine_writeElements : ∀ (level : Nat) (rest : List Char) (elements : List Document),
  oneLine (writeElements .multiLine level rest elements)
    = writeElements .singleLine level (oneLine rest) elements
  | _, _, [] => rfl
  | level, rest, element :: others => by
    rw [writeElements, oneLine_separator _ (solid_write _ _ _ element),
      oneLine_write (level + 1) _ element, oneLine_writeElements level rest others]
    rfl

theorem oneLine_writeFields : ∀ (level : Nat) (rest : List Char) (fields : List (String × Document)),
  oneLine (writeFields .multiLine level rest fields)
    = writeFields .singleLine level (oneLine rest) fields
  | _, _, [] => rfl
  | level, rest, (key, value) :: others => by
    rw [writeFields, oneLine_separator _ (solid_key key _), oneLine_key,
      oneLine_write (level + 1) _ value, oneLine_writeFields level rest others]
    rfl

end

/-- The two texts of a document. -/
theorem render_singleLine (document : Document) :
  document.render .singleLine = String.ofList (oneLine (document.render .multiLine).toList)
  := by
  have nothing : oneLine [] = [] := by rw [oneLine, joinEntries, dropBreaks]
  rw [render, render, String.toList_ofList, oneLine_write, nothing]

example : oneLine ((array [.string ",", .object [("a b", .array [])]]).render .multiLine).toList
    = "[\",\", \x7b\"a b\": [ ]\x7d]".toList := by decide +kernel

end Document

/-! ### Runs -/

/-- A value is written out by the run that computes its document. -/
theorem Value.run_manifest (layout : Layout) (v : Value) (session : Session) (fuel : Nat) (a : State) :
  (v.manifest layout).run session fuel a
    = (v.document.run session fuel a).map
        fun (outcome, b) => (outcome.map (Document.render layout), b)
  := Progress.resolve_map (Document.render layout) (v.document session) a

/-- The runs that write a value out in the two layouts end alike: both in the same failure or both
in a text, and in the same state. The text on one line is the text over several lines, put on one
line. -/
theorem Value.manifest_layouts (v : Value) (session : Session) (fuel : Nat) (a : State) :
  (v.manifest .singleLine).run session fuel a
      = ((v.manifest .multiLine).run session fuel a).map (fun (outcome, b) =>
          (outcome.map fun text => String.ofList (Text.oneLine text.toList), b)) ∧
    ∀ s b, (v.manifest .singleLine).run session fuel a = some (.ok s, b) → '\n' ∉ s.toList
  := by
  have texts : (v.manifest .singleLine).run session fuel a
      = ((v.manifest .multiLine).run session fuel a).map fun (outcome, b) =>
          (outcome.map fun text => String.ofList (Text.oneLine text.toList), b) := by
    rw [Value.run_manifest, Value.run_manifest, Option.map_map]
    congr 1
    funext (outcome, b)
    cases outcome with
    | error failure => rfl
    | ok document =>
      dsimp only [Function.comp_apply, Except.map]
      rw [document.render_singleLine]
  refine ⟨texts, ?_⟩
  intro s b run
  rw [texts] at run
  obtain ⟨⟨outcome, b'⟩, -, heq⟩ := Option.map_eq_some_iff.mp run
  cases outcome with
  | error failure => cases heq
  | ok text =>
    cases heq
    rw [String.toList_ofList]
    exact Text.unbroken_dropBreaks _

end Jsonnet
