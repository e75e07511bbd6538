/-!
# Paths

A path is a text whose components stand between slashes. Empty components and single
dots mean nothing, except a dot that begins the path.
-/

namespace Jsonnet.Path

/-- The components of a path, empty ones included. -/
def components (path : List Char) : List (List Char) :=
  match path with
  | [] => [[]]
  | '/' :: rest => [] :: components rest
  | c :: rest =>
    match components rest with
    | [] => [[c]]
    | first :: others => (c :: first) :: others

/-- The path with given components. -/
def ofComponents : List (List Char) → List Char
  | [] => []
  | [last] => last
  | first :: others => first ++ '/' :: ofComponents others

theorem components_ne_nil (path : List Char) :
  components path ≠ []
  := by
  fun_cases components path <;> simp

/-- Splitting a path and putting it together again changes nothing. -/
theorem ofComponents_components (path : List Char) :
  ofComponents (components path) = path
  := by
  fun_induction components path with
  | case1 => rfl
  | case2 rest ih =>
    cases h : components rest with
    | nil => exact absurd h (components_ne_nil rest)
    | cons first others => simpa [ofComponents, h] using ih
  | case3 c rest _ h _ => exact absurd h (components_ne_nil rest)
  | case4 c rest _ first others h ih =>
    rw [h] at ih
    cases others with
    | nil => simpa [ofComponents] using ih
    | cons second others => simpa [ofComponents] using ih

/-- Whether a component means nothing. -/
def isIdle (component : List Char) : Bool := component == [] || component == ['.']

/-- The components without idle ones at the end; the argument and the result are
reversed. -/
def dropIdle (reversed : List (List Char)) : List (List Char) := reversed.dropWhile isIdle

/-- Splits a path into a leading slash, or a leading dot that is a component of its own,
and what follows. -/
def splitStart (path : List Char) : List Char × List Char :=
  match path with
  | '/' :: rest => (['/'], rest)
  | ['.'] => (['.'], [])
  | '.' :: '/' :: rest => (['.'], '/' :: rest)
  | path => ([], path)

/-- The directory of a file: the path without its last component. A path without
components has no directory and gives the empty text, as does a single component. -/
def directory (path : String) : String :=
  let (start, body) := splitStart path.toList
  match dropIdle (components body).reverse with
  | [] => ""
  | _ :: parents => String.ofList (start ++ ofComponents (dropIdle parents).reverse)

/-- Whether a path begins with a slash. -/
def isAbsolute (path : String) : Bool := path.toList.head? == some '/'

/-- A path seen from a directory: an absolute path stays as it is, and so does a path
seen from the empty directory; otherwise one slash stands between the two. -/
def join (dir path : String) : String :=
  if isAbsolute path || dir == "" then path
  else if dir.toList.getLast? == some '/' then dir ++ path
  else dir ++ "/" ++ path

end Jsonnet.Path
